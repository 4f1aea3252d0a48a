import Ecoa.Proofs.Type.Name
import Ecoa.Type.Registry

/-!
# Names of declared types

What a name means is a type that the registry knows. A reference in a value is meant to name a
constant, which is one of the declared types: the basic types are no constants.
-/

namespace Ecoa

/-- The constant of a value is what stands between its percent signs. -/
theorem constantReference?_eq_some_iff {value reference : String} :
    constantReference? value = some reference ↔
      Text.trim value = "%" ++ reference ++ "%" ∧ reference ≠ "" := by
  rw [constantReference?, Option.filter_eq_some_iff, Text.between_eq_some_iff_eq,
    decide_eq_true_eq]
  rfl

namespace TypeRegistry

/-- The reference names a constant that a library of the registry declares. -/
def NamesConstant (r : TypeRegistry) (reference : String) : Prop :=
  ∃ t d, r.lookup reference = some t ∧ r.declaration? t = some d ∧ d.category = .constant

/-- Every library is registered under the kept spelling of its name. -/
def IsNormalized (r : TypeRegistry) : Prop :=
  ∀ library ∈ r.libraries.keys, normalizeLibrary library = library

variable {r : TypeRegistry} {reference name : String} {t : TypeName}

theorem isNormalized_empty : empty.IsNormalized := nofun

/-- Registration keeps the spellings. -/
theorem IsNormalized.register (h : r.IsNormalized) (library : String) (types : List TypeDecl) :
    (r.register library types).1.IsNormalized := by
  intro key hkey
  rcases OrderedMap.mem_keys_insert.mp hkey with hold | rfl
  · exact h key hold
  · exact normalizeLibrary_normalizeLibrary library

theorem category_ne_constant_of_basic {category : TypeCategory}
    (h : basicCategory? name = some category) : category ≠ .constant := by
  obtain ⟨e, he, rfl⟩ := Option.map_eq_some_iff.mp h
  have hall : ∀ e ∈ basicTypes, e.2 ≠ .constant := by decide
  exact hall e (List.mem_of_find?_eq_some he)

/-- Of the types that the registry knows, the constants are those that are declared as one. -/
theorem namesConstant_iff :
    r.NamesConstant reference ↔
      ∃ t, r.lookup reference = some t ∧ r.classify? t = some .constant := by
  unfold NamesConstant classify?
  refine exists_congr fun t => ?_
  cases r.declaration? t with
  | some d => simp
  | none =>
    have hbasic : basicCategory? t.name ≠ some .constant :=
      fun h => category_ne_constant_of_basic h rfl
    simp [hbasic]

/-- A library declares a type under the name by which it is registered. -/
theorem declaration?_isSome {library : String} {types : List TypeDecl}
    (hmem : (library, types) ∈ r.libraries.entries) (h : declares types name = true) :
    (r.declaration? ⟨library, name⟩).isSome := by
  unfold declares at h
  rw [declaration?, OrderedMap.get?_eq_some_iff.mpr hmem, Option.bind_some, List.find?_isSome]
  exact List.any_eq_true.mp h

theorem contains_of_declaration? (h : (r.declaration? t).isSome) : r.contains t = true := by
  obtain ⟨d, hd⟩ := Option.isSome_iff_exists.mp h
  rw [contains, classify?, hd]
  rfl

/-- The registry knows the type that a name means. -/
theorem contains_of_lookup (hr : r.IsNormalized) (h : r.lookup name = some t) :
    r.contains t = true := by
  unfold lookup at h
  dsimp only at h
  split at h
  · split at h
    · next hcontains =>
      cases h
      exact hcontains
    · cases h
  · unfold lookupBare at h
    split at h
    · next library types hfind =>
      cases h
      have hmem : (library, types) ∈ r.libraries.entries := List.mem_of_find?_eq_some hfind
      rw [TypeName.inLibrary, hr library (OrderedMap.mem_keys_of_mem hmem)]
      have hdeclared := declaration?_isSome hmem (by simpa using List.find?_some hfind)
      exact contains_of_declaration? hdeclared
    · split at h
      · next hbasic =>
        cases h
        unfold contains classify?
        split
        · rfl
        · exact hbasic
      · cases h

/-- The context of a name is for messages alone. -/
theorem resolveFrom_ok_iff {library context context' : String} :
    r.resolveFrom name library context = .ok t ↔ r.resolveFrom name library context' = .ok t := by
  unfold resolveFrom resolve
  dsimp only
  split
  · rfl
  · cases r.lookup name <;> simp

/-- What fails to mean a type is reported as it is written. -/
theorem eq_unresolvedType_of_resolveFrom {library context : String} {e : ModelError}
    (h : r.resolveFrom name library context = .error e) : e = .unresolvedType name context := by
  unfold resolveFrom resolve at h
  dsimp only at h
  split at h
  · cases h
  · split at h
    · cases h
    · exact (Except.error.inj h).symm

/-! ## How many types are declared -/

/-- All types that are declared. -/
def names (r : TypeRegistry) : List TypeName :=
  r.libraries.entries.flatMap fun e => e.2.map fun d => ⟨e.1, d.name⟩

theorem length_names (r : TypeRegistry) : r.names.length = r.size := by
  simp only [names, size, OrderedMap.values, List.length_flatMap, List.length_flatten,
    List.length_map, List.map_map, Function.comp_def]

theorem mem_names_of_declaration? {d : TypeDecl} (h : r.declaration? t = some d) : t ∈ r.names := by
  obtain ⟨types, htypes, hfind⟩ := Option.bind_eq_some_iff.mp h
  refine List.mem_flatMap.mpr ⟨(t.library, types), OrderedMap.get?_eq_some_iff.mp htypes, ?_⟩
  have hname : d.name = t.name := by simpa using List.find?_some hfind
  exact List.mem_map.mpr ⟨d, List.mem_of_find?_eq_some hfind, by rw [hname]⟩

end TypeRegistry

end Ecoa
