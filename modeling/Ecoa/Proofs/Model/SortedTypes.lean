import Ecoa.Proofs.Linking.Steps
import Ecoa.Proofs.Model.Visits
import Ecoa.Proofs.TypeOrder.Ordered

/-!
# Sorted types of a model

A model that is built keeps the declarations of every registered library in emission order. A walk
comes to each of them once, and before it to those of the same library to which it refers.
-/

namespace Ecoa

/-- All declarations, each with its library. -/
def TypeRegistry.declarations (r : TypeRegistry) : List (String × TypeDecl) :=
  r.libraries.toList.flatMap fun e => e.2.map fun d => (e.1, d)

namespace TypeRegistry

variable {r : TypeRegistry} {library : String} {types : List TypeDecl}

theorem typesOf_of_mem (hr : r.IsNormalized) (h : (library, types) ∈ r.libraries.toList) :
    r.typesOf library = types := by
  rw [typesOf, libraryTypes?, hr library (OrderedMap.mem_keys_of_mem h),
    OrderedMap.get?_eq_some_iff.mpr h, Option.getD_some]

/-- A name is declared once in a library. -/
theorem nodup_names_declarations (hr : r.IsNormalized) (honce : r.DeclaresOnce) :
    (r.declarations.map fun e => (⟨e.1, e.2.name⟩ : TypeName)).Nodup := by
  rw [declarations, List.map_flatMap, List.nodup_flatMap]
  constructor
  · rintro ⟨library, types⟩ hmem
    have hnames := typesOf_of_mem hr hmem ▸ honce library
    rw [List.map_map]
    refine List.Nodup.of_map TypeName.name ?_
    rwa [List.map_map]
  · refine (List.pairwise_map.mp r.libraries.nodup_keys).imp fun {e e'} hne => ?_
    intro t ht ht'
    obtain ⟨_, hd, rfl⟩ := List.mem_map.mp ht
    obtain ⟨d, -, rfl⟩ := List.mem_map.mp hd
    obtain ⟨_, hd', heq⟩ := List.mem_map.mp ht'
    obtain ⟨d', -, rfl⟩ := List.mem_map.mp hd'
    exact hne (congrArg TypeName.library heq).symm

end TypeRegistry

namespace Model

variable {m m' : Model}

/-- Each registered library is kept in emission order. -/
def IsSorted (m : Model) : Prop :=
  List.Forall₂ (fun library e => e.1 = library ∧ m.registry.sorted library = .ok e.2)
    m.registry.libraryNames m.sortedTypes.toList

/-- Libraries that are sorted one after the other are added in this order. -/
theorem exists_added_of_foldlM {libraries : List String} (hnodup : libraries.Nodup)
    (hnew : ∀ library ∈ libraries, library ∉ m.sortedTypes.keys)
    (h : libraries.foldlM (fun m library => do
      let sorted ← m.registry.sorted library
      return { m with sortedTypes := m.sortedTypes.insert library sorted }) m = .ok m') :
    ∃ added, m'.sortedTypes.toList = m.sortedTypes.toList ++ added ∧
      List.Forall₂ (fun library e => e.1 = library ∧ m.registry.sorted library = .ok e.2)
        libraries added := by
  induction libraries generalizing m with
  | nil =>
    obtain ⟨⟩ := h
    exact ⟨[], (List.append_nil _).symm, .nil⟩
  | cons library libraries ih =>
    rw [List.foldlM_cons] at h
    obtain ⟨_, hstep, hrest⟩ := bind_ok_iff.mp h
    obtain ⟨sorted, hsorted, ⟨⟩⟩ := bind_ok_iff.mp hstep
    obtain ⟨hlibrary, hnew⟩ := List.forall_mem_cons.mp hnew
    obtain ⟨hfirst, hnodup⟩ := List.nodup_cons.mp hnodup
    have hnew' : ∀ other ∈ libraries, other ∉ (m.sortedTypes.insert library sorted).keys := by
      intro other hother hkey
      rcases OrderedMap.mem_keys_insert.mp hkey with hold | rfl
      · exact hnew other hother hold
      · exact hfirst hother
    obtain ⟨added, hadded, hrel⟩ := ih hnodup hnew' hrest
    refine ⟨(library, sorted) :: added, ?_, .cons ⟨rfl, hsorted⟩ hrel⟩
    rw [hadded, OrderedMap.toList, OrderedMap.entries_insert_of_not_mem hlibrary,
      List.append_assoc, List.singleton_append]
    rfl

theorem isSorted_of_sortTypes (hempty : m.sortedTypes = ∅) (h : m.sortTypes = .ok m') :
    m'.IsSorted := by
  have hregistry : m'.registry = m.registry := (sortTypes_ok h).1.registry
  have hnew : ∀ library ∈ m.registry.libraryNames, library ∉ m.sortedTypes.keys := by
    intro library _
    rw [hempty]
    exact List.not_mem_nil
  obtain ⟨added, hadded, hrel⟩ := exists_added_of_foldlM m.registry.libraries.nodup_keys hnew h
  rw [IsSorted, hregistry, hadded, hempty]
  exact hrel

/-- Each library is kept with its declarations in another order. -/
theorem IsSorted.forall₂_perm (h : m.IsSorted) (hr : m.registry.IsNormalized) :
    List.Forall₂ (fun e e' => e'.1 = e.1 ∧ e'.2.Perm e.2) m.registry.libraries.toList
      m.sortedTypes.toList := by
  rw [IsSorted, TypeRegistry.libraryNames, OrderedMap.keys, List.forall₂_map_left_iff] at h
  have hall : ∀ e ∈ m.registry.libraries.toList, m.registry.typesOf e.1 = e.2 :=
    fun e he => TypeRegistry.typesOf_of_mem hr he
  refine ((List.forall₂_and_left _ _).mpr ⟨hall, h⟩).imp ?_
  rintro e e' ⟨htypes, hname, hsorted⟩
  exact ⟨hname, htypes ▸ TypeOrder.perm_of_sort hsorted⟩

/-- A walk comes to each declaration of each registered library, and to no other. -/
theorem IsSorted.perm_visitedTypes (h : m.IsSorted) (hr : m.registry.IsNormalized) :
    m.visitedTypes.Perm m.registry.declarations := by
  have hperm := h.forall₂_perm hr
  rw [visitedTypes_eq, TypeRegistry.declarations]
  generalize m.registry.libraries.toList = libraries, m.sortedTypes.toList = kept at hperm ⊢
  induction hperm with
  | nil => exact .refl _
  | cons he _ ih =>
    rw [List.flatMap_cons, List.flatMap_cons, he.1]
    exact (he.2.map _).append ih

end Model

/-- Where lists are put together, an element has before it what stands before it in its own. -/
theorem exists_of_flatMap_eq {α β : Type} {f : α → List β} {xs : List α} {before after : List β}
    {b : β} (h : xs.flatMap f = before ++ b :: after) :
    ∃ a ∈ xs, ∃ pre post, f a = pre ++ b :: post ∧ pre ⊆ before := by
  induction xs generalizing before with
  | nil => simp at h
  | cons x xs ih =>
    rw [List.flatMap_cons, List.append_eq_append_iff] at h
    obtain ⟨rest, rfl, hrest⟩ | ⟨rest, hx, hrest⟩ := h
    · obtain ⟨a, ha, pre, post, hpre, hsub⟩ := ih hrest
      exact ⟨a, List.mem_cons_of_mem x ha, pre, post, hpre, fun _ hc =>
        List.mem_append_right _ (hsub hc)⟩
    · cases rest with
      | nil =>
        have hxs : xs.flatMap f = [] ++ b :: after := hrest.symm
        obtain ⟨a, ha, pre, post, hpre, hsub⟩ := ih hxs
        exact ⟨a, List.mem_cons_of_mem x ha, pre, post, hpre, fun _ hc =>
          absurd (hsub hc) List.not_mem_nil⟩
      | cons c rest =>
        obtain ⟨rfl, -⟩ := List.cons.inj hrest
        exact ⟨x, List.mem_cons_self, before, rest, hx, fun _ hc => hc⟩

namespace TypeOrder

variable {s : TypeOrder} {sorted before after : List TypeDecl} {d : TypeDecl}

/-- What a sorted declaration refers to means a type, and when this is one of the same library its
declaration stands before. -/
theorem exists_means_of_sort (hnames : (s.decls.map (·.name)).Nodup) (h : s.sort = .ok sorted)
    (hsplit : sorted = before ++ d :: after) {ref : TypeReference} (href : ref ∈ d.references) :
    ∃ t, s.Means d ref t ∧ (t.library = s.library → ∀ e ∈ s.decls, e.name = t.name →
      e ∈ before) := by
  have hd : sorted[before.length]? = some d := by
    rw [hsplit, List.getElem?_append_right (Nat.le_refl _), Nat.sub_self]
    rfl
  obtain ⟨t, ht⟩ := resolves_of_sort h d (List.mem_of_getElem? hd) ref href
  refine ⟨t, ht, fun hlibrary e he hname => ?_⟩
  have hperm := perm_of_sort h
  obtain ⟨j, hj⟩ := List.getElem?_of_mem (hperm.mem_iff.mpr he)
  have hsorted : (sorted.map (·.name)).Nodup := (hperm.map _).nodup_iff.mpr hnames
  have hlast : IsLastNamed sorted t.name j := by
    refine ⟨⟨e, hj, hname⟩, fun k e' hk he' hname' => ?_⟩
    exact Nat.ne_of_lt hk (eq_of_name_eq hsorted hj he' (hname.trans hname'.symm))
  have hlt : j < before.length :=
    isOrdered_of_sort hnames h before.length j ⟨d, hd, ref, href, t, ht, hlibrary, hlast⟩
  rw [hsplit, List.getElem?_append_left hlt] at hj
  exact List.mem_of_getElem? hj

end TypeOrder

/-- A walk comes to a declaration after those of the same library to which it refers. -/
theorem Model.IsSorted.exists_resolveFrom {m : Model} (h : m.IsSorted)
    (hr : m.registry.IsNormalized) (honce : m.registry.DeclaresOnce) {library : String}
    {d : TypeDecl} {before after : List (String × TypeDecl)}
    (hsplit : m.visitedTypes = before ++ (library, d) :: after) {ref : TypeReference}
    (href : ref ∈ d.references) :
    ∃ t, (∀ context, m.registry.resolveFrom ref.name library context = .ok t) ∧
      (t.library = library → ∀ e, m.registry.declaration? t = some e → (library, e) ∈ before) := by
  rw [visitedTypes_eq] at hsplit
  obtain ⟨kept, hkept, pre, post, hmap, hsub⟩ := exists_of_flatMap_eq hsplit
  obtain ⟨earlier, rest, htypes, rfl, hrest⟩ := List.map_eq_append_iff.mp hmap
  obtain ⟨_, later, rfl, hd, -⟩ := List.map_eq_cons_iff.mp hrest
  obtain ⟨rfl, rfl⟩ := Prod.mk.inj hd
  obtain ⟨library, hlibrary, hname, hsorted⟩ := exists_rel_of_mem h hkept
  subst hname
  have hkey : normalizeLibrary kept.1 = kept.1 := hr _ hlibrary
  obtain ⟨t, ht, hbefore⟩ := TypeOrder.exists_means_of_sort (honce kept.1) hsorted htypes href
  have hmeans : m.registry.resolveFrom ref.name (normalizeLibrary kept.1) _ = .ok t := ht
  rw [hkey] at hmeans
  refine ⟨t, fun context => TypeRegistry.resolveFrom_ok_iff.mp hmeans, fun hsame e he => ?_⟩
  obtain ⟨types, hget, hfind⟩ := Option.bind_eq_some_iff.mp he
  have hdeclared : e ∈ m.registry.typesOf kept.1 := by
    rw [TypeRegistry.typesOf_of_mem hr (OrderedMap.get?_eq_some_iff.mp (hsame ▸ hget))]
    exact List.mem_of_find?_eq_some hfind
  have hmem := hbefore (hsame.trans hkey.symm) e hdeclared (by simpa using List.find?_some hfind)
  exact hsub (List.mem_map_of_mem hmem)

end Ecoa
