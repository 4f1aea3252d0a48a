import Ecoa.Entity.Basic
import Ecoa.Text.Blank

/-!
# Property values in generated code

Scalars are written as they are, labels and constants in the spelling of the language. A value of
a bounded array is written with the number of its elements; a text counts one more for its end.
-/

namespace Ecoa

/-- The elements of a text between quotes; a quote in it is an escape and counts for nothing. -/
def textLength (inner : String) : Nat :=
  inner.length - inner.toList.count '"' + 1

def convertSimple (value : String) (l : Language) : String :=
  match constantReference? value with
  | some reference => l.constantReference reference
  | none => value

namespace Property

/-- The items of an array value in brackets. -/
def bracketItems? (value : String) : Option (List String) :=
  (Text.between '[' ']' value).map (Text.fieldsOf ',')

/-- The inside of an array value in quotes. -/
def quotedText? (value : String) : Option String := Text.between '"' '"' value

def convertItem (p : Property) (l : Language) (item : String) : String :=
  match p.item with
  | some i => if i.category = .enum then l.enumLabel i.type item else convertSimple item l
  | none => convertSimple item l

/-- An array value with the number of its elements. -/
def convertElements (p : Property) (l : Language) (value : String) : String × Nat :=
  match bracketItems? value with
  | some items =>
    ("\x7b".append (Text.joinWith "," (items.map fun i => p.convertItem l (Text.trim i)) ++ "\x7d"),
      items.length)
  | none => match quotedText? value with
    | some inner => (value, textLength inner)
    | none => (value, 0)

def convertValue (p : Property) (value : String) (l : Language) : String :=
  let value := Text.trim value
  match p.category with
  | .fixedArray => (p.convertElements l value).1
  | .array =>
    let (elements, size) := p.convertElements l value
    "\x7b".append (size.repr ++ ", " ++ elements ++ "\x7d")
  | .enum => l.enumLabel p.type value
  | _ => convertSimple value l

end Property

end Ecoa
