/-!
# JSON values

A value as it is read from a text, with the order of members and repeated keys kept. Fractions
and exponents carry no data of a project, so `real` has no value. A text may go wrong half way:
an array or object that it does not close has `closed = false` and holds what came before, and
`cut` stands where a value should begin.
-/

namespace Ecoa

inductive Json where
  | null
  | bool (b : Bool)
  | int (n : Int)
  | real
  | text (s : String)
  | array (items : List Json) (closed : Bool)
  | object (members : List (String × Json)) (closed : Bool)
  /-- A text with an unpaired surrogate, or a number beyond the finite doubles: it can be passed
  over but not read. -/
  | unreadable
  | cut
  deriving Inhabited

namespace Json

/-- A closed array. -/
def list (items : List Json) : Json := .array items true

/-- A closed object. -/
def record (members : List (String × Json)) : Json := .object members true

mutual

/-- The value ends in the text, so that it can be passed over. -/
def skippable : Json → Bool
  | .array items closed => skippableItems items && closed
  | .object members closed => skippableMembers members && closed
  | .cut => false
  | _ => true

def skippableItems : List Json → Bool
  | [] => true
  | v :: vs => v.skippable && skippableItems vs

def skippableMembers : List (String × Json) → Bool
  | [] => true
  | (_, v) :: vs => v.skippable && skippableMembers vs

end

mutual

/-- The value ends in the text and all of it can be read. -/
def readable : Json → Bool
  | .array items closed => readableItems items && closed
  | .object members closed => readableMembers members && closed
  | .cut => false
  | .unreadable => false
  | _ => true

def readableItems : List Json → Bool
  | [] => true
  | v :: vs => v.readable && readableItems vs

def readableMembers : List (String × Json) → Bool
  | [] => true
  | (_, v) :: vs => v.readable && readableMembers vs

end

end Json

end Ecoa
