import Ecoa.Proofs.Property.Reference

/-!
# Elements of array values

An array value is a list of items in brackets or a text in quotes. The check and the conversion both
go by this form of the trimmed value, so the number of elements that is written is the one that was
compared with the bound of the type.
-/

namespace Ecoa

/-- A text has no more quotes than characters, so its length falls short of nothing. -/
theorem count_quote_le (inner : String) : inner.toList.count '"' ≤ inner.length := by
  rw [← String.length_toList]
  exact List.count_le_length

/-- What an array value consists of. -/
inductive ArrayForm where
  | list (items : List String)
  | text (inner : String)

namespace ArrayForm

/-- The number of elements; a text has one more for its end. -/
def length : ArrayForm → Nat
  | list items => items.length
  | text inner => textLength inner

/-- The value has this form. -/
def IsOf (value : String) : ArrayForm → Prop
  | list items => ∃ inner, value = "[" ++ inner ++ "]" ∧ items = Text.fieldsOf ',' inner
  | text inner => value = "\"" ++ inner ++ "\""

end ArrayForm

namespace Property

variable {p : Property} {r : TypeRegistry} {l : Language} {place value : String} {form : ArrayForm}

theorem bracketItems?_eq_some_iff {items : List String} :
    bracketItems? value = some items ↔ (ArrayForm.list items).IsOf value := by
  unfold bracketItems? ArrayForm.IsOf
  simp only [Option.map_eq_some_iff, Text.between_eq_some_iff_eq]
  exact exists_congr fun inner => and_congr_right fun _ => eq_comm

theorem quotedText?_eq_some_iff {inner : String} :
    quotedText? value = some inner ↔ (ArrayForm.text inner).IsOf value :=
  Text.between_eq_some_iff_eq

/-- A text in quotes is not in brackets. -/
theorem bracketItems?_of_text {inner : String} (h : (ArrayForm.text inner).IsOf value) :
    bracketItems? value = none := by
  unfold ArrayForm.IsOf at h
  rw [h, bracketItems?, Option.map_eq_none_iff, Option.eq_none_iff_forall_ne_some]
  intro other hother
  have hchars := Text.between_eq_some_iff.mp hother
  simp at hchars

/-- The items of a list as they are checked; a text has none. -/
def checkedItems : ArrayForm → List String
  | .list items => items.map (Text.remove (· = ' '))
  | .text _ => []

/-- The elements as they are written, in braces or as the text that they are. -/
def writtenElements (p : Property) (l : Language) : ArrayForm → String
  | .list items =>
    "\x7b" ++ Text.joinWith "," (items.map fun item => p.convertItem l (Text.trim item)) ++ "\x7d"
  | .text inner => "\"" ++ inner ++ "\""

/-- An array value is accepted by its form: each of its items is, and it is as long as the type
admits. -/
theorem checkArray_ok_iff_form : p.checkArray r place value = .ok () ↔ ∃ form : ArrayForm,
    form.IsOf value ∧ (∀ item ∈ checkedItems form, p.checkItem r place item = .ok ()) ∧
      p.checkLength r place form.length = .ok () := by
  rw [checkArray_ok_iff]
  constructor
  · rintro (⟨_, hitems, hall, hlength⟩ | ⟨hnone, inner, hinner, hlength⟩)
    · obtain ⟨items, hbrackets, rfl⟩ := Option.map_eq_some_iff.mp hitems
      rw [List.length_map] at hlength
      exact ⟨.list items, bracketItems?_eq_some_iff.mp hbrackets, hall, hlength⟩
    · exact ⟨.text inner, quotedText?_eq_some_iff.mp hinner, nofun, hlength⟩
  · rintro ⟨form, hform, hall, hlength⟩
    cases form with
    | list items =>
      refine .inl ⟨_, ?_, hall, ?_⟩
      · rw [checkedItems?, bracketItems?_eq_some_iff.mpr hform]
        rfl
      · rwa [checkedItems, List.length_map]
    | text inner =>
      refine .inr ⟨?_, inner, quotedText?_eq_some_iff.mpr hform, hlength⟩
      rw [checkedItems?, bracketItems?_of_text hform]
      rfl

/-- A list in brackets is accepted when each item is without its spaces, and when there are as many
items as the type admits. -/
theorem checkValue_list_ok_iff {inner : String} (harray : p.IsArray)
    (hinner : Text.trim value = "[" ++ inner ++ "]") : p.checkValue r place value = .ok () ↔
      (∀ item ∈ Text.fieldsOf ',' inner,
        p.checkItem r place (Text.remove (· = ' ') item) = .ok ()) ∧
      p.checkLength r place (Text.fieldsOf ',' inner).length = .ok () := by
  have hlist : checkedItems? (Text.trim value) =
      some ((Text.fieldsOf ',' inner).map (Text.remove (· = ' '))) := by
    rw [checkedItems?, bracketItems?_eq_some_iff.mpr ⟨inner, hinner, rfl⟩]
    rfl
  rw [checkValue_of_isArray harray, checkArray_ok_iff, hlist]
  simp only [Option.some.injEq, exists_eq_left', reduceCtorEq, false_and, or_false,
    List.forall_mem_map, List.length_map]

/-- Conversion goes by the same form. -/
theorem convertElements_of_isOf (h : form.IsOf value) :
    p.convertElements l value = (p.writtenElements l form, form.length) := by
  unfold convertElements
  cases form with
  | list items =>
    rw [bracketItems?_eq_some_iff.mpr h]
    rfl
  | text inner =>
    rw [bracketItems?_of_text h, quotedText?_eq_some_iff.mpr h, h]
    rfl

/-- A bounded array is written with the number of its elements. -/
theorem convertValue_of_array (hcategory : p.category = .array)
    (h : form.IsOf (Text.trim value)) : p.convertValue value l =
      "\x7b" ++ form.length.repr ++ ", " ++ p.writtenElements l form ++ "\x7d" := by
  unfold convertValue
  simp only [hcategory, convertElements_of_isOf h]
  change "\x7b" ++ (form.length.repr ++ ", " ++ p.writtenElements l form ++ "\x7d") = _
  simp only [String.append_assoc]

theorem convertValue_of_fixedArray (hcategory : p.category = .fixedArray)
    (h : form.IsOf (Text.trim value)) : p.convertValue value l = p.writtenElements l form := by
  unfold convertValue
  simp only [hcategory, convertElements_of_isOf h]

/-- Every value that is accepted has a form of which the check compares the length with the bound of
the type. Conversion writes the elements of this form, and for a bounded array their number. -/
theorem convertValue_of_check_ok (h : p.check r = .ok ()) (harray : p.IsArray)
    {e : String × String} (he : e ∈ p.values.toList) (l : Language) :
    (∃ (form : ArrayForm) (max : Nat), form.IsOf (Text.trim e.2) ∧
      r.number? p.type.library p.bound = some max ∧
      p.convertElements l (Text.trim e.2) = (p.writtenElements l form, form.length) ∧
      (p.category = .array → form.length ≤ max ∧ p.convertValue e.2 l =
        "\x7b" ++ form.length.repr ++ ", " ++ p.writtenElements l form ++ "\x7d") ∧
      (p.category = .fixedArray → form.length = max ∧
        p.convertValue e.2 l = p.writtenElements l form)) ∧
    ∀ inner : String, inner.toList.count '"' ≤ inner.length := by
  obtain ⟨-, hvalues⟩ := check_ok_iff.mp h
  have hvalue := hvalues e he
  rw [checkValue_of_isArray harray, checkArray_ok_iff_form] at hvalue
  obtain ⟨form, hform, -, hlength⟩ := hvalue
  obtain ⟨max, hmax, hbounded, hfixed⟩ := checkLength_ok_iff_number?.mp hlength
  refine ⟨⟨form, max, hform, hmax, convertElements_of_isOf hform, fun hcategory => ?_,
    fun hcategory => ?_⟩, count_quote_le⟩
  · exact ⟨hbounded hcategory, convertValue_of_array hcategory hform⟩
  · exact ⟨hfixed hcategory, convertValue_of_fixedArray hcategory hform⟩

/-- A property of a bounded array of numbers in `nav`, with a list and a text among its values. -/
def listedProperty : Property :=
  { boundedProperty "Path" "%geo:N%" with
    category := .array
    values := .ofList [("C:M1:path", " [1, %geo:N%]"), ("C:M2:path", "\"ab\"")] }

theorem convertValue_listedProperty : listedProperty.check twinRegistry = .ok () ∧
    listedProperty.IsArray ∧ ∃ form : ArrayForm, form.IsOf "[1, %geo:N%]" ∧ form.length ≤ 3 ∧
      listedProperty.convertValue " [1, %geo:N%]" .c =
        "\x7b" ++ form.length.repr ++ ", " ++ listedProperty.writtenElements .c form ++ "\x7d" := by
  have hcheck : listedProperty.check twinRegistry = .ok () := by decide +kernel
  have hmem : ("C:M1:path", " [1, %geo:N%]") ∈ listedProperty.values.toList := by decide +kernel
  have hmax : twinRegistry.number? "nav" "%geo:N%" = some 3 := by decide +kernel
  obtain ⟨⟨form, max, hform, hbound, -, hbounded, -⟩, -⟩ :=
    convertValue_of_check_ok hcheck (.inl rfl) hmem .c
  obtain rfl : max = 3 := Option.some.inj (hbound.symm.trans hmax)
  have htrim : Text.trim " [1, %geo:N%]" = "[1, %geo:N%]" := by decide +kernel
  rw [htrim] at hform
  exact ⟨hcheck, .inl rfl, form, hform, hbounded rfl⟩

example : listedProperty.convertValue " [1, %geo:N%]" .c = "\x7b2, \x7b1,geo__N\x7d\x7d" := by
  decide +kernel

end Property

end Ecoa
