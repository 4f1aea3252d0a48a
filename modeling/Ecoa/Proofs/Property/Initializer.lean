import Ecoa.Proofs.Language.Spelling
import Ecoa.Proofs.Property.Elements

/-!
# Initializers of arrays

An array value in brackets is written as an initializer in braces. It has one place for each piece
between the commas of the value, and that is the number which is compared with the bound of the
type. A piece of blanks only is a place with nothing in it: the check of simple items lets it pass,
and so the initializer has as many elements as were counted exactly when no piece is blank.
-/

namespace Ecoa

namespace Text

variable {p : Char → Bool} {new s : String} {sep c : Char}

theorem not_mem_of_mem_splitAll {cs field : List Char} (h : field ∈ splitAll sep cs) :
    sep ∉ field := by
  induction cs generalizing field with
  | nil =>
    rw [List.mem_singleton.mp h]
    exact List.not_mem_nil
  | cons d cs ih =>
    rw [splitAll] at h
    split at h
    · rcases List.mem_cons.mp h with rfl | h
      · exact List.not_mem_nil
      · exact ih h
    · next hd =>
      obtain ⟨w, ws, hw⟩ := List.exists_cons_of_ne_nil (splitAll_ne_nil sep cs)
      rw [hw] at h ih
      rcases List.mem_cons.mp h with rfl | h
      · exact List.not_mem_cons_of_ne_of_not_mem (Ne.symm hd) (ih List.mem_cons_self)
      · exact ih (List.mem_cons_of_mem w h)

/-- No field has the separator in it. -/
theorem not_mem_of_mem_fieldsOf {field : String} (h : field ∈ fieldsOf sep s) :
    sep ∉ field.toList := by
  obtain ⟨w, hw, rfl⟩ := List.mem_map.mp h
  rw [String.toList_ofList]
  exact not_mem_of_mem_splitAll hw

theorem not_mem_trim (h : c ∉ s.toList) : c ∉ (trim s).toList :=
  fun hc => h ((trimEnds_sublist _).subset (toList_trim s ▸ hc))

/-- A character that is neither in the text nor in what replaces others does not come in. -/
theorem not_mem_replaceIf_of_not_mem (hs : c ∉ s.toList) (hnew : c ∉ new.toList) :
    c ∉ (replaceIf p new s).toList := by
  rw [toList_replaceIf, List.mem_flatMap]
  rintro ⟨d, hd, hc⟩
  split at hc
  · exact hnew hc
  · exact hs (List.mem_singleton.mp hc ▸ hd)

end Text

section

variable {value : String} {l : Language}

/-- What is something is written as something. -/
theorem convertSimple_eq_empty_iff : convertSimple value l = "" ↔ value = "" := by
  unfold convertSimple
  cases hreference : constantReference? value with
  | none => rfl
  | some reference =>
    obtain ⟨hvalue, hne⟩ := constantReference?_eq_some_iff.mp hreference
    change l.constantReference reference = "" ↔ value = ""
    refine iff_of_false (fun hempty => hne ?_) ?_
    · have hlength : (l.constantReference reference).toList.length = 0 := by
        rw [hempty]
        rfl
      rw [Language.length_constantReference] at hlength
      have hnil : reference.toList = [] := List.eq_nil_of_length_eq_zero (by omega)
      exact String.toList_eq_nil_iff.mp hnil
    · rintro rfl
      have hchars := congrArg String.toList hvalue
      simp [Text.toList_trim, Text.trimEnds] at hchars

/-- Conversion brings no comma in. -/
theorem comma_not_mem_convertSimple (h : ',' ∉ value.toList) :
    ',' ∉ (convertSimple value l).toList := by
  unfold convertSimple
  cases hreference : constantReference? value with
  | none => exact h
  | some reference =>
    obtain ⟨hvalue, -⟩ := constantReference?_eq_some_iff.mp hreference
    have htrim : ',' ∉ (Text.trim value).toList := Text.not_mem_trim h
    have hcomma : ',' ∉ reference.toList := by
      intro hc
      rw [hvalue] at htrim
      exact htrim (by simp [hc])
    change ',' ∉ (l.constantReference reference).toList
    rw [Language.constantReference_eq]
    refine Text.not_mem_replaceIf_of_not_mem hcomma ?_
    cases l <;> decide

end

/-- The elements of an initializer in braces. -/
def initializerElements? (initializer : String) : Option (List String) :=
  (Text.between '\x7b' '\x7d' initializer).map fun inner =>
    if inner = "" then [] else Text.fieldsOf ',' inner

/-- The initializer has this many elements, and none of them is empty. -/
def HoldsElements (initializer : String) (n : Nat) : Prop :=
  ∃ elements, initializerElements? initializer = some elements ∧ elements.length = n ∧
    "" ∉ elements

section

variable {elements : List String}

theorem joinWith_comma_eq_empty_iff (hne : elements ≠ [])
    (hcomma : ∀ element ∈ elements, ',' ∉ element.toList) :
    Text.joinWith "," elements = "" ↔ elements = [""] := by
  constructor
  · intro hempty
    have hfields : Text.fieldsOf ',' (Text.joinWith "," elements) = elements :=
      Text.fieldsOf_joinWith hne hcomma
    rw [hempty] at hfields
    exact hfields.symm
  · rintro rfl
    rfl

/-- Elements in braces are read back, except for a single one that is empty. -/
theorem initializerElements?_braces (hne : elements ≠ [])
    (hcomma : ∀ element ∈ elements, ',' ∉ element.toList) :
    initializerElements? ("\x7b" ++ Text.joinWith "," elements ++ "\x7d") =
      some (if elements = [""] then [] else elements) := by
  have hinside : Text.between '\x7b' '\x7d' ("\x7b" ++ Text.joinWith "," elements ++ "\x7d") =
      some (Text.joinWith "," elements) := Text.between_eq_some_iff_eq.mpr rfl
  have hfields : Text.fieldsOf ',' (Text.joinWith "," elements) = elements :=
    Text.fieldsOf_joinWith hne hcomma
  rw [initializerElements?, hinside, Option.map_some, hfields]
  simp only [joinWith_comma_eq_empty_iff hne hcomma]

theorem holdsElements_braces_iff (hne : elements ≠ [])
    (hcomma : ∀ element ∈ elements, ',' ∉ element.toList) :
    HoldsElements ("\x7b" ++ Text.joinWith "," elements ++ "\x7d") elements.length ↔
      "" ∉ elements := by
  unfold HoldsElements
  rw [initializerElements?_braces hne hcomma]
  by_cases hsingle : elements = [""]
  · simp [hsingle]
  · simp [hsingle]

end

namespace Property

variable {p : Property} {r : TypeRegistry} {l : Language} {inner : String}

theorem convertItem_of_simple {item : String} (hitems : p.HasSimpleItems) :
    p.convertItem l item = convertSimple item l := by
  unfold convertItem
  cases hitem : p.item with
  | none => rfl
  | some i =>
    have hcategory : i.category = .simple := by simpa [HasSimpleItems, hitem] using hitems
    dsimp only
    rw [if_neg (by simp [hcategory])]

/-- The elements that are written for a list of simple items. -/
theorem writtenElements_of_simple {items : List String} (hitems : p.HasSimpleItems) :
    p.writtenElements l (.list items) = "\x7b" ++
      Text.joinWith "," (items.map fun item => convertSimple (Text.trim item) l) ++ "\x7d" := by
  simp only [writtenElements, convertItem_of_simple hitems]

/-- An initializer is read back as the pieces of the value that are not blank. -/
theorem initializerElements?_writtenElements (hitems : p.HasSimpleItems) (l : Language)
    (inner : String) :
    (initializerElements? (p.writtenElements l (.list (Text.fieldsOf ',' inner)))).map
        (·.countP (· ≠ "")) =
      some ((Text.fieldsOf ',' inner).countP (Text.trim · ≠ "")) ∧
    (HoldsElements (p.writtenElements l (.list (Text.fieldsOf ',' inner)))
        (Text.fieldsOf ',' inner).length ↔
      ∀ item ∈ Text.fieldsOf ',' inner, Text.trim item ≠ "") := by
  let elements := (Text.fieldsOf ',' inner).map fun item => convertSimple (Text.trim item) l
  have hne : elements ≠ [] := by
    simp [elements, Text.fieldsOf, Text.splitAll_ne_nil]
  have hcomma : ∀ element ∈ elements, ',' ∉ element.toList := by
    intro element helement
    obtain ⟨item, hitem, rfl⟩ := List.mem_map.mp helement
    exact comma_not_mem_convertSimple (Text.not_mem_trim (Text.not_mem_of_mem_fieldsOf hitem))
  have hcount : elements.countP (· ≠ "") =
      (Text.fieldsOf ',' inner).countP (Text.trim · ≠ "") := by
    simp only [elements, List.countP_map, Function.comp_def, ne_eq, convertSimple_eq_empty_iff]
  rw [writtenElements_of_simple hitems]
  constructor
  · rw [initializerElements?_braces hne hcomma, Option.map_some, ← hcount]
    split
    · next hsingle => simp [hsingle]
    · rfl
  · have hlength : elements.length = (Text.fieldsOf ',' inner).length := List.length_map _
    rw [← hlength, holdsElements_braces_iff hne hcomma]
    simp only [elements, List.mem_map, convertSimple_eq_empty_iff, not_exists, not_and]

/-- An accepted list of simple items is written as an initializer with one place for each piece
between its commas. This is the number that is compared with the bound of the type, and the one that
is written before the elements of a bounded array. The elements are the pieces that are not blank,
so there are as many of them, and none is empty, exactly when no piece is blank. -/
theorem convertValue_initializer (h : p.check r = .ok ()) (harray : p.IsArray)
    (hitems : p.HasSimpleItems) {e : String × String} (he : e ∈ p.values.toList)
    (hinner : Text.trim e.2 = "[" ++ inner ++ "]") (l : Language) :
    ∃ (initializer : String) (n max : Nat), n = (Text.fieldsOf ',' inner).length ∧
      p.checkLength r (p.locate e.1) n = .ok () ∧
      r.number? p.type.library p.bound = some max ∧
      (p.category = .array → n ≤ max ∧
        p.convertValue e.2 l = "\x7b" ++ n.repr ++ ", " ++ initializer ++ "\x7d") ∧
      (p.category = .fixedArray → n = max ∧ p.convertValue e.2 l = initializer) ∧
      (initializerElements? initializer).map (·.countP (· ≠ "")) =
        some ((Text.fieldsOf ',' inner).countP (Text.trim · ≠ "")) ∧
      (HoldsElements initializer n ↔ ∀ item ∈ Text.fieldsOf ',' inner, Text.trim item ≠ "") := by
  have hvalue := (check_ok_iff.mp h).2 e he
  have hlength := ((checkValue_list_ok_iff harray hinner).mp hvalue).2
  obtain ⟨max, hmax, hbounded, hfixed⟩ := checkLength_ok_iff_number?.mp hlength
  have hform : (ArrayForm.list (Text.fieldsOf ',' inner)).IsOf (Text.trim e.2) :=
    ⟨inner, hinner, rfl⟩
  obtain ⟨hcount, hholds⟩ := initializerElements?_writtenElements hitems l inner
  refine ⟨p.writtenElements l (.list (Text.fieldsOf ',' inner)), _, max, rfl, hlength, hmax,
    fun hcategory => ⟨hbounded hcategory, ?_⟩, fun hcategory => ⟨hfixed hcategory, ?_⟩,
    hcount, hholds⟩
  · rw [convertValue_of_array hcategory hform]
    rfl
  · exact convertValue_of_fixedArray hcategory hform

theorem convertValue_initializer_listedProperty : listedProperty.check twinRegistry = .ok () ∧
    ("C:M1:path", " [1, %geo:N%]") ∈ listedProperty.values.toList ∧
    ∃ initializer, listedProperty.convertValue " [1, %geo:N%]" .c =
        "\x7b2, " ++ initializer ++ "\x7d" ∧ HoldsElements initializer 2 := by
  have hcheck : listedProperty.check twinRegistry = .ok () := by decide +kernel
  have hmem : ("C:M1:path", " [1, %geo:N%]") ∈ listedProperty.values.toList := by decide +kernel
  have htrim : Text.trim " [1, %geo:N%]" = "[" ++ "1, %geo:N%" ++ "]" := by decide +kernel
  obtain ⟨initializer, n, max, hn, -, -, hbounded, -, -, hholds⟩ :=
    convertValue_initializer hcheck (.inl rfl) rfl hmem htrim .c
  have hfields : Text.fieldsOf ',' "1, %geo:N%" = ["1", " %geo:N%"] := by decide +kernel
  rw [hfields] at hn hholds
  subst hn
  exact ⟨hcheck, hmem, initializer, (hbounded rfl).2, hholds.mpr (by decide +kernel)⟩

/-- A property of a bounded array of numbers with an empty list and one with an empty piece. -/
def gappedProperty : Property :=
  { listedProperty with values := .ofList [("C:M1:path", "[]"), ("C:M2:path", "[1,,2]")] }

/-- An empty list is written as one of a single element, and an empty piece as one element more. -/
theorem convertValue_gappedProperty : gappedProperty.check twinRegistry = .ok () ∧
    gappedProperty.IsArray ∧ gappedProperty.HasSimpleItems ∧
    gappedProperty.convertValue "[]" .c = "\x7b1, \x7b\x7d\x7d" ∧
      ¬ HoldsElements "\x7b\x7d" 1 ∧
    gappedProperty.convertValue "[1,,2]" .c = "\x7b3, \x7b1,,2\x7d\x7d" ∧
      ¬ HoldsElements "\x7b1,,2\x7d" 3 := by
  refine ⟨by decide +kernel, .inl rfl, rfl, by decide +kernel, ?_, by decide +kernel, ?_⟩
  · rintro ⟨elements, helements, hlength, -⟩
    have hread : initializerElements? "\x7b\x7d" = some [] := by decide +kernel
    cases hread.symm.trans helements
    cases hlength
  · rintro ⟨elements, helements, -, hne⟩
    have hread : initializerElements? "\x7b1,,2\x7d" = some ["1", "", "2"] := by decide +kernel
    cases hread.symm.trans helements
    exact hne (by decide)

end Property

end Ecoa
