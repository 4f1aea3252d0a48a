import Ecoa.Proofs.Except
import Ecoa.Proofs.Property.Mark

/-!
# Values that the check accepts

For each part of the check of properties, what its success says of the value.
-/

namespace Ecoa

namespace Property

def IsArray (p : Property) : Prop := p.category = .array ∨ p.category = .fixedArray

/-- The items of an array value are checked as simple values. -/
def HasSimpleItems (p : Property) : Prop := (p.item.map (·.category)).getD .simple = .simple

variable {p : Property} {r : TypeRegistry} {place value : String}

theorem checkMarks_ok_iff : checkMarks place value = .ok () ↔ ¬ HasMark value.toList := by
  rw [← foreignMark?_eq_none_iff]
  unfold checkMarks
  cases foreignMark? value.toList <;> simp

theorem checkLabel_ok_iff :
    p.checkLabel place value = .ok () ↔ ¬ HasMark value.toList ∧ value ∈ p.labels := by
  unfold checkLabel
  rw [after_ok_iff, checkMarks_ok_iff]
  by_cases hlabel : value ∈ p.labels
  · simp [hlabel, pure_ok_iff]
  · simp [hlabel, throw_ne_ok]

theorem checkSimple_ok_iff : checkSimple r place value = .ok () ↔ ¬ HasMark value.toList ∧
    ∀ reference, constantReference? value = some reference → (r.lookup reference).isSome := by
  unfold checkSimple
  rw [after_ok_iff, checkMarks_ok_iff]
  cases constantReference? value with
  | none => simp [pure_ok_iff]
  | some reference =>
    by_cases hknown : (r.lookup reference).isSome = true
    · simp [hknown, pure_ok_iff]
    · simp [hknown, throw_ne_ok]

theorem checkItem_of_simple (hitem : p.HasSimpleItems) :
    p.checkItem r place value = checkSimple r place value := by
  unfold checkItem
  rw [hitem]

/-- An array value is items in brackets, each of which is accepted, or a text in quotes, and it is
as long as the type admits. -/
theorem checkArray_ok_iff : p.checkArray r place value = .ok () ↔
    (∃ items, checkedItems? value = some items ∧ (∀ item ∈ items,
      p.checkItem r place item = .ok ()) ∧ p.checkLength r place items.length = .ok ()) ∨
    (checkedItems? value = none ∧ ∃ inner, quotedText? value = some inner ∧
      p.checkLength r place (textLength inner) = .ok ()) := by
  unfold checkArray
  cases checkedItems? value with
  | some items =>
    dsimp only
    rw [after_ok_iff, forM_ok_iff]
    simp
  | none =>
    cases quotedText? value with
    | some inner => simp
    | none => simp [throw_ne_ok]

theorem checkValue_of_simple (h : p.category = .simple) :
    p.checkValue r place value = checkSimple r place value := by
  unfold checkValue
  rw [h]

theorem checkValue_of_isArray (h : p.IsArray) :
    p.checkValue r place value = p.checkArray r place (Text.trim value) := by
  unfold checkValue
  rcases h with h | h
  · rw [h]
  · rw [h]

theorem check_ok_iff : p.check r = .ok () ↔ p.isSupported = true ∧
    ∀ e ∈ p.values.toList, p.checkValue r (p.locate e.1) e.2 = .ok () := by
  have htype : p.checkType = .ok () ↔ p.isSupported = true := by
    unfold checkType
    by_cases h : p.isSupported = true <;> simp [h]
  unfold check
  rw [after_ok_iff, htype, forM_ok_iff]

end Property

/-- The check accepts a model when it accepts each property and each of its values. -/
theorem Model.checkProperties_ok_iff {m : Model} : (∃ n, m.checkProperties = .ok n) ↔
    ∀ p ∈ m.properties.items, p.isSupported = true ∧
      ∀ e ∈ p.values.toList, p.checkValue m.registry (p.locate e.1) e.2 = .ok () := by
  simp only [← Property.check_ok_iff]
  unfold checkProperties
  simp only [after_ok_iff, forM_ok_iff]
  exact ⟨fun ⟨_, hall, _⟩ => hall, fun hall => ⟨_, hall, rfl⟩⟩

end Ecoa
