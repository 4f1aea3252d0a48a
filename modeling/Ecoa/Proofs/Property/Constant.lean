import Ecoa.Proofs.Language.Spelling
import Ecoa.Proofs.Property.Reference

/-!
# Constants in generated code

A value that refers to a constant is written as the text of the reference in the spelling of the
language. The check looks the reference up instead: what it names is a type, with its own spelling.
The two agree for a reference to a library whose path is set apart by dots, and for no bare one.
-/

namespace Ecoa

namespace TypeRegistry

variable {r : TypeRegistry} {reference library name : String} {t : TypeName}

/-- A qualified reference can only mean the type that it names. -/
theorem eq_of_lookup_qualified (h : IsQualified reference library name)
    (ht : r.lookup reference = some t) : t = .inLibrary library name := by
  have hparse : TypeName.parse? (Text.trim reference) = some (.inLibrary library name) := by
    rw [TypeName.parse?_trim]
    exact TypeName.parse?_eq_some_iff.mpr ⟨library, name, h, rfl⟩
  unfold lookup at ht
  simp only [hparse] at ht
  split at ht
  · exact (Option.some.inj ht).symm
  · cases ht

/-- A bare reference means a type of that name. -/
theorem name_of_lookup_bare (h : ':' ∉ reference.toList) (ht : r.lookup reference = some t) :
    t.name = Text.trim reference := by
  have hparse : TypeName.parse? (Text.trim reference) = none := by
    rw [TypeName.parse?_trim, TypeName.parse?_of_colon_not_mem h]
  unfold lookup at ht
  simp only [hparse] at ht
  unfold lookupBare at ht
  split at ht
  · cases ht
    rfl
  · split at ht
    · cases ht
      rfl
    · cases ht

end TypeRegistry

namespace Property

variable {p : Property} {r : TypeRegistry} {l : Language} {value reference : String} {t : TypeName}

theorem convertValue_of_simple (h : p.category = .simple) :
    p.convertValue value l = convertSimple (Text.trim value) l := by
  unfold convertValue
  rw [h]

theorem convertSimple_of_reference (h : constantReference? value = some reference) :
    convertSimple (Text.trim value) l = l.constantReference reference := by
  have hsame : constantReference? (Text.trim value) = some reference := by
    rw [← h, constantReference?, constantReference?, Text.trim_trim]
  rw [convertSimple, hsame]

/-- A value that refers to a type is written as the name of that type when the reference is
qualified, has no blanks around it and no separators in its name, and in C++ only when dots alone
set the path of its library apart; a bare reference never is. Of two qualified references to one
type, without blanks around them, the values are written alike in C, and in C++ only when the
references are the same. -/
theorem convertValue_reference (hsimple : p.category = .simple)
    (hreference : constantReference? value = some reference) (ht : r.lookup reference = some t) :
    (∀ library name, IsQualified reference library name →
      (p.convertValue value l = l.qualify t ↔ Text.trim reference = reference ∧
        (∀ c ∈ name.toList, Language.isNameSeparator c = false) ∧
          (l = .cpp → HasDottedPath library.toList))) ∧
    (':' ∉ reference.toList → p.convertValue value l ≠ l.qualify t) ∧
    ∀ value' reference' library name library' name',
      constantReference? value' = some reference' → r.lookup reference' = some t →
        IsQualified reference library name → IsQualified reference' library' name' →
          Text.trim reference = reference → Text.trim reference' = reference' →
            (p.convertValue value l = p.convertValue value' l ↔ l = .c ∨ reference = reference') := by
  have hvalue : p.convertValue value l = l.constantReference reference := by
    rw [convertValue_of_simple hsimple, convertSimple_of_reference hreference]
  rw [hvalue]
  refine ⟨fun library name hqualified => ?_, fun hbare => ?_, ?_⟩
  · rw [TypeRegistry.eq_of_lookup_qualified hqualified ht]
    exact Language.constantReference_eq_qualify_iff hqualified.text_eq hqualified.colon_not_mem
  · exact Language.constantReference_ne_qualify (TypeRegistry.name_of_lookup_bare hbare ht) hbare
  · intro value' reference' library name library' name' hreference' ht' hqualified hqualified' htrim
      htrim'
    have hsame := (TypeRegistry.eq_of_lookup_qualified hqualified ht).symm.trans
      (TypeRegistry.eq_of_lookup_qualified hqualified' ht')
    obtain ⟨hlibrary, rfl⟩ := TypeName.mk.inj hsame
    have htexts : reference = reference' ↔ library = library' := by
      rw [← htrim, ← htrim', hqualified.text_eq, hqualified'.text_eq, ← String.toList_inj,
        ← String.toList_inj]
      simp
    rw [convertValue_of_simple hsimple, convertSimple_of_reference hreference', htexts, ← htrim,
      ← htrim', hqualified.text_eq, hqualified'.text_eq]
    exact Language.constantReference_eq_iff hqualified.colon_not_mem hqualified'.colon_not_mem
      hlibrary

/-! ## A constant of a nested library -/

theorem isQualified_geo : IsQualified "geo:N" "geo" "N" where
  text_eq := by decide +kernel
  colon_not_mem := by decide
  library_ne := by decide
  name_ne := by decide

theorem convertValue_reference_twinRegistry :
    constantReference? "%geo:N%" = some "geo:N" ∧
      twinRegistry.lookup "geo:N" = some ⟨"geo", "N"⟩ ∧
      (offsetProperty "%geo:N%").convertValue "%geo:N%" .cpp = Language.cpp.qualify ⟨"geo", "N"⟩ := by
  have hreference : constantReference? "%geo:N%" = some "geo:N" := by decide +kernel
  have hlookup : twinRegistry.lookup "geo:N" = some ⟨"geo", "N"⟩ := by decide +kernel
  refine ⟨hreference, hlookup, ?_⟩
  have hspelled := (convertValue_reference (p := offsetProperty "%geo:N%") (l := .cpp) rfl hreference
    hlookup).1 "geo" "N" isQualified_geo
  refine hspelled.mpr ⟨by decide +kernel, ?_, fun _ => by decide +kernel⟩
  simp [Language.isNameSeparator]

/-- A library `nav.geo`, under its kept spelling, with a constant `K`. -/
def nestedRegistry : TypeRegistry where
  libraries := .ofList [("nav__geo", [.constant "K" "ECOA:int32" "3"])]

/-- All three references mean the one constant, and in C++ each is written in its own way. -/
theorem convertValue_nestedRegistry :
    (∀ reference ∈ ["nav.geo:K", "nav__geo:K", "K"],
      nestedRegistry.lookup reference = some ⟨"nav__geo", "K"⟩) ∧
    Language.cpp.qualify ⟨"nav__geo", "K"⟩ = "nav::geo::K" ∧
    (offsetProperty "").convertValue "%nav.geo:K%" .cpp = "nav::geo::K" ∧
    (offsetProperty "").convertValue "%nav__geo:K%" .cpp = "nav__geo::K" ∧
    (offsetProperty "").convertValue "%K%" .cpp = "K" := by
  decide +kernel

end Property

end Ecoa
