import Ecoa.Proofs.Property.Accepted
import Ecoa.Proofs.Property.Bound
import Ecoa.Proofs.Type.Lookup

/-!
# References in property values

A value, or an item of an array, may refer to a constant as `%library:name%`. The check looks for
marks of foreign notations before it looks up the constant, and the colon of the reference is part
of what it searches. Of the constant it asks only that there is a type of its name.
-/

namespace Ecoa

/-- A reference of these parts has no mark: there is none in a part, and the colon between them
makes none with the end of the library. -/
def IsUnmarked (library name : String) : Prop :=
  ¬ HasMark library.toList ∧ ¬ EndsBeforeMark library.toList ∧ ¬ HasMark name.toList

instance (library name : String) : Decidable (IsUnmarked library name) :=
  inferInstanceAs (Decidable (_ ∧ _ ∧ _))

namespace Property

/-- The text is read as a simple value of the property: a value that is stored, or an item of one,
without its spaces. -/
def StandsIn (p : Property) (text : String) : Prop :=
  ∃ e ∈ p.values.toList, (p.category = .simple ∧ text = e.2) ∨
    (p.IsArray ∧ p.HasSimpleItems ∧ ∃ items, checkedItems? (Text.trim e.2) = some items ∧
      text ∈ items)

variable {p : Property} {r : TypeRegistry} {place value library name : String}

/-- The check of a reference to a constant is that of its marks. -/
theorem checkSimple_reference_ok_iff (hconstant : r.NamesConstant (library ++ ":" ++ name))
    (hvalue : Text.trim value = "%" ++ library ++ ":" ++ name ++ "%") :
    checkSimple r place value = .ok () ↔ IsUnmarked library name := by
  have hmark : ¬ HasMark value.toList ↔ IsUnmarked library name := by
    rw [← hasMark_trim, hvalue, hasMark_reference, not_or, not_or]
    rfl
  have hreference : constantReference? value = some (library ++ ":" ++ name) := by
    rw [constantReference?_eq_some_iff, hvalue]
    refine ⟨by simp only [String.append_assoc], fun hempty => ?_⟩
    have hcolon : ':' ∈ (library ++ ":" ++ name).toList := by simp
    rw [hempty] at hcolon
    cases hcolon
  obtain ⟨t, -, hlookup, -⟩ := hconstant
  rw [checkSimple_ok_iff, hmark, hreference]
  simp [hlookup]

/-- Items that are written in brackets, without commas in them, are checked without their spaces. -/
theorem checkedItems?_joinWith {items : List String} (hne : items ≠ [])
    (hcomma : ∀ item ∈ items, ',' ∉ item.toList) :
    checkedItems? ("[" ++ Text.joinWith "," items ++ "]") =
      some (items.map (Text.remove (· = ' '))) := by
  have hinside : Text.between '[' ']' ("[" ++ Text.joinWith "," items ++ "]") =
      some (Text.joinWith "," items) := Text.between_eq_some_iff_eq.mpr rfl
  have hfields : Text.fieldsOf ',' (Text.joinWith "," items) = items :=
    Text.fieldsOf_joinWith hne hcomma
  rw [checkedItems?, bracketItems?, hinside, Option.map_some, hfields, Option.map_some]

/-- A reference to a declared constant is accepted, as a value and as an item, exactly when no mark
is in it: one comes about also where its library ends in a digit or a star. -/
theorem checkValue_reference_ok_iff (hconstant : r.NamesConstant (library ++ ":" ++ name))
    (hvalue : Text.trim value = "%" ++ library ++ ":" ++ name ++ "%") :
    (p.category = .simple → (p.checkValue r place value = .ok () ↔ IsUnmarked library name)) ∧
    (p.IsArray → p.HasSimpleItems → ',' ∉ value.toList → ' ' ∉ value.toList →
      ∀ (before after : List String) (array : String),
        (∀ item ∈ before ++ after, ',' ∉ item.toList) →
        Text.trim array = "[" ++ Text.joinWith "," (before ++ value :: after) ++ "]" →
        (p.checkValue r place array = .ok () ↔ IsUnmarked library name ∧
          (∀ item ∈ before ++ after, p.checkItem r place (Text.remove (· = ' ') item) = .ok ()) ∧
          p.checkLength r place (before ++ value :: after).length = .ok ())) := by
  refine ⟨fun hsimple => ?_,
    fun harray hitems hcomma hspace before after array hcommas htrim => ?_⟩
  · rw [checkValue_of_simple hsimple]
    exact checkSimple_reference_ok_iff hconstant hvalue
  · have hall : ∀ item ∈ before ++ value :: after, ',' ∉ item.toList := by
      simp only [List.forall_mem_append, List.forall_mem_cons] at hcommas ⊢
      exact ⟨hcommas.1, hcomma, hcommas.2⟩
    have hkeep : Text.remove (· = ' ') value = value :=
      Text.remove_eq_self fun c hc => decide_eq_false fun hblank => hspace (hblank ▸ hc)
    have hitem : p.checkItem r place value = .ok () ↔ IsUnmarked library name := by
      rw [checkItem_of_simple hitems]
      exact checkSimple_reference_ok_iff hconstant hvalue
    have hchecked : (∀ item ∈ (before ++ value :: after).map (Text.remove (· = ' ')),
        p.checkItem r place item = .ok ()) ↔ IsUnmarked library name ∧
          ∀ item ∈ before ++ after, p.checkItem r place (Text.remove (· = ' ') item) = .ok () := by
      simp only [List.forall_mem_map, List.forall_mem_append, List.forall_mem_cons, hkeep, hitem]
      exact and_left_comm
    rw [checkValue_of_isArray harray, htrim, checkArray_ok_iff,
      checkedItems?_joinWith (by simp) hall]
    simp only [Option.some.injEq, exists_eq_left', reduceCtorEq, false_and, or_false, hchecked,
      List.length_map, and_assoc]

/-- Where all values of a property are accepted, what stands in it passes the check of a simple
value. -/
theorem StandsIn.exists_checkSimple_ok {text : String} (h : p.StandsIn text)
    (haccepted : ∀ e ∈ p.values.toList, p.checkValue r (p.locate e.1) e.2 = .ok ()) :
    ∃ place, checkSimple r place text = .ok () := by
  obtain ⟨e, he, ⟨hcategory, rfl⟩ | ⟨harray, hitems, items, hchecked, hmem⟩⟩ := h
  · have hvalue := haccepted e he
    rw [checkValue_of_simple hcategory] at hvalue
    exact ⟨_, hvalue⟩
  · have hvalue := haccepted e he
    rw [checkValue_of_isArray harray, checkArray_ok_iff, hchecked] at hvalue
    obtain ⟨_, ⟨⟩, hall, -⟩ | ⟨hnone, -⟩ := hvalue
    · have hitem := hall text hmem
      rw [checkItem_of_simple hitems] at hitem
      exact ⟨_, hitem⟩
    · cases hnone

/-! ## References between two libraries -/

/-- Two libraries with a constant `N`; the name of the second ends in a digit. -/
def twinRegistry : TypeRegistry where
  libraries := .ofList [
    ("geo", [.constant "N" "ECOA:int32" "3"]),
    ("geo2", [.constant "N" "ECOA:int32" "3"])]

/-- A property of a number, with this value in one instance. -/
def offsetProperty (value : String) : Property where
  scope := ⟨"C", "Tracker_t", "Tracker", .c⟩
  name := "offset"
  type := .standard "int32"
  category := .simple
  item := none
  maxNumber := none
  labels := []
  values := .ofList [("C:M1:offset", value)]

theorem twinRegistry_namesConstant : twinRegistry.NamesConstant "geo:N" ∧
    twinRegistry.NamesConstant "geo2:N" :=
  ⟨⟨⟨"geo", "N"⟩, .constant "N" "ECOA:int32" "3", by decide +kernel, rfl, rfl⟩,
    ⟨"geo2", "N"⟩, .constant "N" "ECOA:int32" "3", by decide +kernel, rfl, rfl⟩

theorem checkValue_reference_twinRegistry :
    twinRegistry.NamesConstant ("geo" ++ ":" ++ "N") ∧
      Text.trim "%geo:N%" = "%" ++ "geo" ++ ":" ++ "N" ++ "%" ∧
      (offsetProperty "%geo:N%").checkValue twinRegistry "C:M1:offset" "%geo:N%" = .ok () ∧
      (boundedProperty "Track" "2").checkValue twinRegistry "C:M1:track" "[7,%geo:N%]" =
        .ok () := by
  have hconstant : twinRegistry.NamesConstant ("geo" ++ ":" ++ "N") := twinRegistry_namesConstant.1
  have hvalue : Text.trim "%geo:N%" = "%" ++ "geo" ++ ":" ++ "N" ++ "%" := by decide +kernel
  have hunmarked : IsUnmarked "geo" "N" := by decide +kernel
  have hitems : (boundedProperty "Track" "2").HasSimpleItems := rfl
  have hseven : ∀ item ∈ ["7"] ++ [], (boundedProperty "Track" "2").checkItem twinRegistry
      "C:M1:track" (Text.remove (· = ' ') item) = .ok () := by
    intro item hitem
    rw [List.mem_singleton.mp hitem, checkItem_of_simple hitems, checkSimple_ok_iff]
    exact ⟨by decide +kernel, by decide +kernel⟩
  have hlength : (boundedProperty "Track" "2").checkLength twinRegistry "C:M1:track" 2 = .ok () :=
    checkLength_ok_iff_number?.mpr ⟨2, by decide +kernel, nofun, fun _ => rfl⟩
  refine ⟨hconstant, hvalue, ?_, ?_⟩
  · exact ((checkValue_reference_ok_iff hconstant hvalue).1 rfl).mpr hunmarked
  · exact ((checkValue_reference_ok_iff hconstant hvalue).2 (.inr rfl) hitems (by decide +kernel)
      (by decide +kernel) ["7"] [] _ (by decide +kernel) (by decide +kernel)).mpr
      ⟨hunmarked, hseven, hlength⟩

/-- The name of a library that ends in a digit makes a mark with the colon of the reference. -/
theorem checkValue_reference_digit : twinRegistry.NamesConstant "geo2:N" ∧
    (offsetProperty "%geo2:N%").checkValue twinRegistry "C:M1:offset" "%geo2:N%" =
      .error (.invalidPropertyValue "C:M1:offset" "Unknown symbol 2: in value %geo2:N%") := by
  refine ⟨twinRegistry_namesConstant.2, ?_⟩
  rw [checkValue_of_simple rfl]
  decide +kernel

end Property

/-- In an accepted model a reference names a type that the registry knows. It names a declared
constant only when this type is one, for which the check does not ask. -/
theorem Model.reference_names_type {m : Model} {n : Nat} (h : m.checkProperties = .ok n)
    {p : Property} (hp : p ∈ m.properties.items) {text reference : String}
    (htext : p.StandsIn text) (hreference : constantReference? text = some reference) :
    ∃ t, m.registry.lookup reference = some t ∧
      (m.registry.IsNormalized → m.registry.contains t = true) ∧
      (m.registry.NamesConstant reference ↔ m.registry.classify? t = some .constant) := by
  obtain ⟨-, haccepted⟩ := Model.checkProperties_ok_iff.mp ⟨n, h⟩ p hp
  obtain ⟨place, hplace⟩ := htext.exists_checkSimple_ok haccepted
  obtain ⟨t, ht⟩ := Option.isSome_iff_exists.mp
    ((Property.checkSimple_ok_iff.mp hplace).2 reference hreference)
  refine ⟨t, ht, fun hr => TypeRegistry.contains_of_lookup hr ht, ?_⟩
  rw [TypeRegistry.namesConstant_iff, ht]
  simp

/-- A model with this value of its only property. -/
def offsetModel (value : String) : Model :=
  { Model.empty Property.twinRegistry .empty with
    properties := Store.empty.insert "C" (Property.offsetProperty value) }

theorem Model.reference_names_type_offsetModel :
    (offsetModel "%geo:N%").checkProperties = .ok 1 ∧
      (Property.offsetProperty "%geo:N%").StandsIn "%geo:N%" ∧
      ∃ t, Property.twinRegistry.lookup "geo:N" = some t ∧
        Property.twinRegistry.contains t = true := by
  have haccepted : (offsetModel "%geo:N%").checkProperties = .ok 1 := by decide +kernel
  have hnormalized : Property.twinRegistry.IsNormalized := by
    unfold TypeRegistry.IsNormalized
    decide +kernel
  have hstands : (Property.offsetProperty "%geo:N%").StandsIn "%geo:N%" :=
    ⟨("C:M1:offset", "%geo:N%"), List.mem_singleton_self _, .inl ⟨rfl, rfl⟩⟩
  have hreference : constantReference? "%geo:N%" = some "geo:N" := by decide +kernel
  refine ⟨haccepted, hstands, ?_⟩
  obtain ⟨t, ht, hknown, -⟩ := Model.reference_names_type haccepted List.mem_cons_self hstands
    hreference
  exact ⟨t, ht, hknown hnormalized⟩

/-- A basic type in the place of a constant is accepted. -/
theorem Model.checkProperties_basic_reference :
    (offsetModel "%ECOA:int32%").checkProperties = .ok 1 ∧
      (Property.offsetProperty "%ECOA:int32%").StandsIn "%ECOA:int32%" ∧
      constantReference? "%ECOA:int32%" = some "ECOA:int32" ∧
      ¬ Property.twinRegistry.NamesConstant "ECOA:int32" := by
  have hlookup : Property.twinRegistry.lookup "ECOA:int32" = some (.standard "int32") := by
    decide +kernel
  refine ⟨by decide +kernel,
    ⟨("C:M1:offset", "%ECOA:int32%"), List.mem_singleton_self _, .inl ⟨rfl, rfl⟩⟩,
    by decide +kernel, fun hnames => ?_⟩
  obtain ⟨t, ht, hconstant⟩ := TypeRegistry.namesConstant_iff.mp hnames
  cases hlookup.symm.trans ht
  cases hconstant

end Ecoa
