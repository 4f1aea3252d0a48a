import Ecoa.Json.Decoder
import Ecoa.Type.Decl

/-!
# Type declarations in JSON

A declaration is an object whose member `category` says which other members it has. The category
may stand anywhere, so the whole declaration is read before its members are decoded.
-/

namespace Ecoa

open Json Decoder Fields

def optionalText : Option String → Json
  | none => .null
  | some s => .text s

namespace EnumLabel

def toJson (l : EnumLabel) : Json :=
  .record (("name", .text l.name) :: (l.number.map fun n => ("valnum", .text n)).toList)

def fields : Fields EnumLabel := EnumLabel.mk <$> required "name" text <*> optional "valnum" text

end EnumLabel

namespace RecordField

def toJson (f : RecordField) : Json := .record [("name", .text f.name), ("type", .text f.type)]

def fields : Fields RecordField := RecordField.mk <$> required "name" text <*> required "type" text

end RecordField

namespace Variant

def toJson (v : Variant) : Json :=
  .record [("name", .text v.name), ("type", .text v.type), ("when", .text v.whenValue)]

def fields : Fields Variant :=
  Variant.mk <$> required "name" text <*> required "type" text <*> required "when" text

end Variant

namespace TypeDecl

def members : TypeDecl → List (String × Json)
  | .constant name type value =>
    [("name", .text name), ("type", .text type), ("value", .text value)]
  | .simple name type lo hi precision =>
    [("name", .text name), ("type", .text type), ("min_range", optionalText lo),
     ("max_range", optionalText hi), ("precision", optionalText precision)]
  | .enum name type labels =>
    [("name", .text name), ("type", .text type), ("values", .list (labels.map (·.toJson)))]
  | .array name item bound | .fixedArray name item bound =>
    [("name", .text name), ("item_type", .text item), ("max_number", .text bound)]
  | .record name fs => [("name", .text name), ("fields", .list (fs.map (·.toJson)))]
  | .variantRecord name selectName selectType fs vs =>
    [("name", .text name), ("select_name", .text selectName), ("select_type", .text selectType),
     ("fields", .list (fs.map (·.toJson))), ("unions", .list (vs.map (·.toJson)))]

def toJson (d : TypeDecl) : Json := .record (("category", .text d.category.keyword) :: d.members)

/-- The members that a declaration of a category has. -/
def fieldsOf : TypeCategory → Fields TypeDecl
  | .constant =>
    TypeDecl.constant <$> required "name" text <*> required "type" text <*> required "value" text
  | .simple =>
    TypeDecl.simple <$> required "name" text <*> required "type" text <*> optional "min_range" text
      <*> optional "max_range" text <*> optional "precision" text
  | .enum =>
    TypeDecl.enum <$> required "name" text <*> required "type" text
      <*> defaulted "values" (Decoder.list EnumLabel.fields.decoder) []
  | .array =>
    TypeDecl.array <$> required "name" text <*> required "item_type" text
      <*> required "max_number" text
  | .fixedArray =>
    TypeDecl.fixedArray <$> required "name" text <*> required "item_type" text
      <*> required "max_number" text
  | .record =>
    TypeDecl.record <$> required "name" text
      <*> defaulted "fields" (Decoder.list RecordField.fields.decoder) []
  | .variantRecord =>
    TypeDecl.variantRecord <$> required "name" text <*> required "select_name" text
      <*> required "select_type" text
      <*> defaulted "fields" (Decoder.list RecordField.fields.decoder) []
      <*> defaulted "unions" (Decoder.list Variant.fields.decoder) []

def categoryDecoder : Decoder TypeCategory
  | .text s => match TypeCategory.ofKeyword? s with
    | some c => .ok c
    | none => .error .mismatch
  | v => .error (wrong v)

/-- Read every member once, the category at its place. -/
def findCategory : Option TypeCategory → List (String × Json) →
    Except Fault (Option TypeCategory)
  | found, [] => .ok found
  | found, (k, v) :: ms =>
    if k = "category" then
      if found.isSome then .error .mismatch
      else do findCategory (some (← categoryDecoder v)) ms
    else if v.readable then findCategory found ms
    else .error .malformed

/-- Decode the members of a declaration that has been read to its end. -/
def ofCategory (c : TypeCategory) (body : Json) : Except Fault TypeDecl :=
  ((fieldsOf c).decoder body).mapError fun _ => .mismatch

def decoder : Decoder TypeDecl
  | .object ms closed => do
    let found ← findCategory none ms
    if !closed then .error .malformed
    else match found with
      | some c => ofCategory c (.record (ms.filter (·.1 ≠ "category")))
      | none => .error .mismatch
  | .array (v :: items) closed => do
    let c ← categoryDecoder v
    if closed && readableItems items then ofCategory c (.list items) else .error .malformed
  | .array [] closed => .error (if closed then .mismatch else .malformed)
  | v => .error (wrong v)

end TypeDecl

end Ecoa
