import Ecoa.Type.Category
import Ecoa.Type.Name

/-!
# Type declarations

What a library declares. Names of other types are kept as they are written, and so are bounds and
values; a value `%name%` refers to a constant.
-/

namespace Ecoa

structure EnumLabel where
  name : String
  number : Option String

structure RecordField where
  name : String
  type : String

structure Variant where
  name : String
  type : String
  whenValue : String

inductive TypeDecl where
  | constant (name type value : String)
  | simple (name type : String) (minRange maxRange precision : Option String)
  | enum (name type : String) (labels : List EnumLabel)
  | array (name itemType maxNumber : String)
  | fixedArray (name itemType maxNumber : String)
  | record (name : String) (fields : List RecordField)
  | variantRecord (name selectName selectType : String) (fields : List RecordField)
      (variants : List Variant)

/-- What a declaration refers to: a type by its name, or a constant by a value `%name%`. -/
inductive TypeReference where
  | type (name : String)
  | constant (name : String)
  deriving DecidableEq

def TypeReference.name : TypeReference → String
  | .type name => name
  | .constant name => name

namespace TypeDecl

def name : TypeDecl → String
  | .constant name .. | .simple name .. | .enum name .. | .array name .. | .fixedArray name ..
  | .record name .. | .variantRecord name .. => name

def category : TypeDecl → TypeCategory
  | .constant .. => .constant
  | .simple .. => .simple
  | .enum .. => .enum
  | .array .. => .array
  | .fixedArray .. => .fixedArray
  | .record .. => .record
  | .variantRecord .. => .variantRecord

/-- The constants that given values refer to. -/
def constantsIn (values : List String) : List TypeReference :=
  values.filterMap fun v => (constantReference? v).map .constant

/-- All references, in the order in which they are written. -/
def references : TypeDecl → List TypeReference
  | .constant _ type value => .type type :: constantsIn [value]
  | .simple _ type lo hi precision =>
    .type type :: constantsIn (lo.toList ++ hi.toList ++ precision.toList)
  | .enum _ type labels => .type type :: constantsIn (labels.filterMap (·.number))
  | .array _ item bound | .fixedArray _ item bound => .type item :: constantsIn [bound]
  | .record _ fields => fields.map (.type ·.type)
  | .variantRecord _ _ select fields variants =>
    .type select :: (fields.map (.type ·.type) ++ variants.map (.type ·.type))

def itemType? : TypeDecl → Option String
  | .array _ item _ | .fixedArray _ item _ => some item
  | _ => none

def maxNumber? : TypeDecl → Option String
  | .array _ _ bound | .fixedArray _ _ bound => some bound
  | _ => none

def labels? : TypeDecl → Option (List EnumLabel)
  | .enum _ _ labels => some labels
  | _ => none

/-- The type on which a constant, a simple type or an enumeration is based. -/
def baseType? : TypeDecl → Option String
  | .constant _ type _ | .simple _ type .. | .enum _ type _ => some type
  | _ => none

def value? : TypeDecl → Option String
  | .constant _ _ value => some value
  | _ => none

end TypeDecl

end Ecoa
