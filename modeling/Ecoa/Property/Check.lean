import Ecoa.Model.Basic
import Ecoa.Property.Conversion
import Ecoa.Text.Digit

/-!
# Checks of properties

A property is a scalar or an array of scalars. Its values must name labels of its enumeration and
constants that are declared, and an array value must have as many elements as the bound of its
type admits.
-/

namespace Ecoa

/-- The first `digit:` or `*:` in a value, with a `#` before it. Such marks come from the notation
of other tools. -/
def foreignMark? : List Char → Option (List Char)
  | '#' :: d :: ':' :: rest =>
    if Text.isDecimalDigit d || d = '*' then some ['#', d, ':'] else foreignMark? (d :: ':' :: rest)
  | d :: ':' :: rest =>
    if Text.isDecimalDigit d || d = '*' then some [d, ':'] else foreignMark? (':' :: rest)
  | _ :: rest => foreignMark? rest
  | [] => none

/-- Read a number of at most 64 bits: decimal digits, with or without a plus before them. -/
def parseSize? (text : String) : Option Nat :=
  let digits := match text.toList with
    | '+' :: rest => rest
    | cs => cs
  if digits ≠ [] ∧ digits.all Char.isDigit then
    let n := digits.foldl (fun n c => 10 * n + (c.toNat - '0'.toNat)) 0
    if n < UInt64.size then some n else none
  else none

namespace TypeRegistry

/-- The number that a text stands for, as seen from a library, through at most `steps` constants. -/
def numberWithin (r : TypeRegistry) (library : String) : Nat → String → Option Nat
  | 0, _ => none
  | steps + 1, text =>
    match parseSize? (Text.trim text) with
    | some n => some n
    | none =>
      match constantReference? text with
      | none => none
      | some reference =>
        match r.resolveFrom reference library "" with
        | .error _ => none
        | .ok t =>
          match (r.declaration? t).bind (·.value?) with
          | some value => r.numberWithin library steps value
          | none => none

/-- The number that a bound stands for. A chain of constants longer than the registry is a loop. -/
def number? (r : TypeRegistry) (library bound : String) : Option Nat :=
  r.numberWithin library (r.size + 1) bound

end TypeRegistry

namespace Property

/-- A property whose values can be checked. -/
def isSupported (p : Property) : Bool :=
  match p.category with
  | .simple | .enum => true
  | .array | .fixedArray => p.item.any (·.category.isScalar)
  | .record | .variantRecord | .constant => false

def checkType (p : Property) : Except ModelError Unit :=
  if p.isSupported then .ok ()
  else .error (.unsupportedPropertyType p.type.text
    (p.scope.component ++ ":" ++ p.scope.moduleType ++ ":" ++ p.name))

/-- The place of a value in messages; the second field of its key is the module instance. -/
def locate (p : Property) (key : String) : String :=
  p.scope.component ++ ":" ++ ((Text.fieldsOf ':' key)[1]?.getD "") ++ ":" ++ p.name

def checkMarks (place value : String) : Except ModelError Unit :=
  match foreignMark? value.toList with
  | some mark =>
    .error (.invalidPropertyValue place
      ("Unknown symbol " ++ String.ofList mark ++ " in value " ++ value))
  | none => .ok ()

def checkLabel (p : Property) (place value : String) : Except ModelError Unit := do
  checkMarks place value
  if value ∈ p.labels then return
  else throw (.invalidPropertyValue place ("Unknown enum value " ++ value))

def checkSimple (r : TypeRegistry) (place value : String) : Except ModelError Unit := do
  checkMarks place value
  match constantReference? value with
  | none => return
  | some reference =>
    if (r.lookup reference).isSome then return
    else throw (.invalidPropertyValue place ("Unknown constant value " ++ value))

def checkItem (p : Property) (r : TypeRegistry) (place item : String) : Except ModelError Unit :=
  match (p.item.map (·.category)).getD .simple with
  | .enum => p.checkLabel place item
  | .simple => checkSimple r place item
  | _ => .ok ()

/-- The bound of an array type, as it is written. -/
def bound (p : Property) : String := Text.trim (p.maxNumber.getD "")

def checkLength (p : Property) (r : TypeRegistry) (place : String) (length : Nat) :
    Except ModelError Unit :=
  match r.number? p.type.library p.bound with
  | none => .error (.invalidPropertyValue place ("Unknown constant value " ++ p.bound))
  | some max =>
    if p.category = .array ∧ max < length then
      .error (.invalidPropertyValue place
        ("Incorrect array length (" ++ length.repr ++ ">" ++ max.repr ++ ")"))
    else if p.category = .fixedArray ∧ length ≠ max then
      .error (.invalidPropertyValue place
        ("Incorrect array length (" ++ length.repr ++ "!=" ++ max.repr ++ ")"))
    else .ok ()

/-- The items in brackets as they are checked, without any spaces. -/
def checkedItems? (value : String) : Option (List String) :=
  (bracketItems? value).map (·.map (Text.remove (· = ' ')))

def checkArray (p : Property) (r : TypeRegistry) (place value : String) :
    Except ModelError Unit := do
  match checkedItems? value with
  | some items =>
    items.forM (p.checkItem r place)
    p.checkLength r place items.length
  | none =>
    match quotedText? value with
    | some inner => p.checkLength r place (textLength inner)
    | none => throw (.invalidPropertyValue place ("Unsupported array value " ++ value))

def checkValue (p : Property) (r : TypeRegistry) (place value : String) : Except ModelError Unit :=
  match p.category with
  | .array | .fixedArray => p.checkArray r place (Text.trim value)
  | .enum => p.checkLabel place value
  | .simple => checkSimple r place value
  | .record | .variantRecord | .constant => .ok ()

/-- Check the type of a property and each of its values. -/
def check (p : Property) (r : TypeRegistry) : Except ModelError Unit := do
  p.checkType
  p.values.toList.forM fun e => p.checkValue r (p.locate e.1) e.2

end Property

namespace Model

/-- Check every property, and count the values. -/
def checkProperties (m : Model) : Except ModelError Nat := do
  m.properties.items.forM (·.check m.registry)
  return (m.properties.items.map (·.values.size)).foldr (· + ·) 0

end Model

end Ecoa
