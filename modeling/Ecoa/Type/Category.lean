/-!
# Categories of types

A set of categories is a number whose bits are the categories in it.
-/

namespace Ecoa

inductive TypeCategory where
  | simple
  | enum
  | record
  | variantRecord
  | array
  | fixedArray
  | constant
  deriving DecidableEq

namespace TypeCategory

def all : List TypeCategory :=
  [.simple, .enum, .record, .variantRecord, .array, .fixedArray, .constant]

/-- The word used in declarations. -/
def keyword : TypeCategory → String
  | .simple => "simple"
  | .enum => "enum"
  | .record => "record"
  | .variantRecord => "variant_record"
  | .array => "array"
  | .fixedArray => "fixed_array"
  | .constant => "constant"

/-- The words used in messages. -/
def name : TypeCategory → String
  | .variantRecord => "variant record"
  | .fixedArray => "fixed array"
  | c => c.keyword

def ofKeyword? (s : String) : Option TypeCategory := all.find? (·.keyword = s)

/-- Values are passed by reference. -/
def isComplex : TypeCategory → Bool
  | .array | .fixedArray | .record | .variantRecord => true
  | .simple | .enum | .constant => false

def isScalar : TypeCategory → Bool
  | .simple | .enum => true
  | _ => false

def position : TypeCategory → Nat
  | .simple => 0
  | .enum => 1
  | .record => 2
  | .variantRecord => 3
  | .array => 4
  | .fixedArray => 5
  | .constant => 6

end TypeCategory

structure CategorySet where
  bits : Nat
  deriving DecidableEq

namespace CategorySet

def single (c : TypeCategory) : CategorySet := ⟨1 <<< c.position⟩

def ofList (cs : List TypeCategory) : CategorySet :=
  ⟨cs.foldl (fun bits c => bits ||| (single c).bits) 0⟩

def all : CategorySet := ofList TypeCategory.all

def contains (s : CategorySet) (c : TypeCategory) : Bool := s.bits.testBit c.position

end CategorySet

end Ecoa
