import Mathlib.Data.List.Nodup
import Ecoa.BindingTable

/-!
# Listings of bindings

A listing is a map of maps of sets. `toList` has every binding once, `size` counts it, and
`NoEmptyGroup`, which insertion and removal keep, lets emptiness be read off the outermost map and
the order of the bindings of an owner off its keys.
-/

namespace Ecoa

namespace OrderedMap

variable {κ : Type} {ν : Type} {β : Type}

/-- Lists made from the entries of a map have nothing in common when their elements tell the key. -/
theorem nodup_flatMap_entries (m : OrderedMap κ ν) (f : κ × ν → List β) (key : β → κ)
    (hf : ∀ e ∈ m.entries, (f e).Nodup) (hkey : ∀ e ∈ m.entries, ∀ x ∈ f e, key x = e.1) :
    (m.entries.flatMap f).Nodup := by
  rw [List.nodup_flatMap]
  refine ⟨hf, ?_⟩
  have keys_ne := List.pairwise_map.mp m.nodup_keys
  refine keys_ne.imp_of_mem fun {a b} ha hb hne => ?_
  intro x hxa hxb
  exact hne ((hkey a ha x hxa).symm.trans (hkey b hb x hxb))

/-- Of lists made from the entries of a map, whose elements tell the key, those under one key are
the list of its entry. -/
theorem filter_flatMap_entries [DecidableEq κ] (m : OrderedMap κ ν) (f : κ × ν → List β)
    (key : β → κ) (hkey : ∀ e ∈ m.entries, ∀ x ∈ f e, key x = e.1) (k : κ) :
    (m.entries.flatMap f).filter (key · = k) =
      ((m.get? k).map fun v => f (k, v)).getD [] := by
  obtain ⟨entries, hnodup⟩ := m
  simp only [get?] at hkey ⊢
  induction entries with
  | nil => rfl
  | cons e entries ih =>
    obtain ⟨j, v⟩ := e
    simp only [List.map_cons, List.nodup_cons] at hnodup
    rw [List.forall_mem_cons] at hkey
    rw [List.flatMap_cons, List.filter_append, ih hnodup.2 hkey.2, List.find?_cons]
    by_cases hj : j = k
    · subst hj
      have hhead : (f (j, v)).filter (key · = j) = f (j, v) :=
        List.filter_eq_self.mpr fun x hx => decide_eq_true (hkey.1 x hx)
      have hrest : entries.find? (·.1 = j) = none := by
        rw [List.find?_eq_none]
        intro e he hej
        exact hnodup.1 (of_decide_eq_true hej ▸ List.mem_map_of_mem he)
      rw [hhead, hrest, decide_eq_true rfl]
      exact List.append_nil _
    · have hhead : (f (j, v)).filter (key · = k) = [] :=
        List.filter_eq_nil_iff.mpr fun x hx => by simp [hkey.1 x hx, hj]
      rw [hhead, decide_eq_false hj]
      exact List.nil_append _

/-- The first element under a key that is looked for tells the first such key, when every entry has
elements. -/
theorem map_find?_flatMap_entries (m : OrderedMap κ ν) (f : κ × ν → List β) (key : β → κ)
    (hf : ∀ e ∈ m.entries, f e ≠ []) (hkey : ∀ e ∈ m.entries, ∀ x ∈ f e, key x = e.1)
    (q : κ → Bool) :
    ((m.entries.flatMap f).find? fun x => q (key x)).map key = m.keys.find? q := by
  rw [keys]
  generalize m.entries = entries at hf hkey
  induction entries with
  | nil => rfl
  | cons e entries ih =>
    rw [List.forall_mem_cons] at hf hkey
    rw [List.flatMap_cons, List.find?_append, List.map_cons, List.find?_cons]
    cases hq : q e.1 with
    | true =>
      obtain ⟨x, xs, hx⟩ := List.exists_cons_of_ne_nil hf.1
      have hxkey : key x = e.1 := hkey.1 x (hx ▸ List.mem_cons_self)
      simp [hx, hxkey, hq]
    | false =>
      have hnone : (f e).find? (fun x => q (key x)) = none :=
        List.find?_eq_none.mpr fun x hx => by simp [hkey.1 x hx, hq]
      rw [hnone, Option.none_or]
      exact ih hf.2 hkey.2

end OrderedMap

namespace BindingListing

variable {ι : Type}

theorem nodup_toList (l : BindingListing ι) : l.toList.Nodup := by
  refine l.owners.nodup_flatMap_entries _ (·.1) (fun o _ => ?_) ?_
  · refine o.2.nodup_flatMap_entries _ (·.2.1) (fun g _ => ?_) ?_
    · refine g.2.nodup_flatMap_entries _ (·.2.2.1) (fun h _ => ?_) ?_
      · exact h.2.nodup_keys.map fun p q e => congrArg (·.2.2.2) e
      · grind
    · grind
  · grind

theorem length_toList (l : BindingListing ι) : l.toList.length = l.size := by
  simp only [toList, size, OrderedMap.values, OrderedMap.toList, BindingGroups.peers, Peers.count,
    List.length_flatMap, List.length_map, List.map_map, Function.comp_def, List.sum_eq_foldr]

/-- No owner, no key of an owner and no key opposite it stands without bindings. -/
def NoEmptyGroup (l : BindingListing ι) [DecidableEq ι] : Prop :=
  l.owners.IsFilled fun groups => groups.IsFilled fun entries => entries.IsFilled fun _ => True

variable [DecidableEq ι]

theorem noEmptyGroup_empty : (empty : BindingListing ι).NoEmptyGroup := OrderedMap.isFilled_empty

theorem NoEmptyGroup.insert {l : BindingListing ι} (h : l.NoEmptyGroup) (o : ι) (g k : String)
    (p : ι) : (l.insert o g k p).1.NoEmptyGroup := by
  have groups := OrderedMap.IsFilled.inner h OrderedMap.isFilled_empty o
  have entries := groups.inner OrderedMap.isFilled_empty g
  have entries' := entries.grow (k := k) (f := fun peers => peers.insert p ())
    ⟨OrderedMap.insert_ne_empty _ _ _, trivial⟩
  have groups' := groups.grow (k := g)
    (f := fun entries => entries.grow k fun peers => peers.insert p ())
    ⟨OrderedMap.grow_ne_empty, entries'⟩
  exact OrderedMap.IsFilled.grow h ⟨OrderedMap.grow_ne_empty, groups'⟩

theorem NoEmptyGroup.remove {l : BindingListing ι} (h : l.NoEmptyGroup) (o : ι) (g k : String)
    (p : ι) : (l.remove o g k p).1.NoEmptyGroup := by
  rw [BindingListing.remove]
  split
  · have groups := OrderedMap.IsFilled.inner h OrderedMap.isFilled_empty o
    have entries := groups.inner OrderedMap.isFilled_empty g
    have entries' := entries.shrink (k := k) (f := fun peers => peers.erase p) trivial
    have groups' := groups.shrink (k := g)
      (f := fun entries => entries.shrink k fun peers => peers.erase p) entries'
    exact OrderedMap.IsFilled.shrink h groups'
  · exact h

theorem exists_peer_of_ne_empty {entries : OrderedMap String (OrderedSet ι)} (hne : entries ≠ ∅)
    (h : entries.IsFilled fun _ => True) :
    ∃ k peers p, entries.get? k = some peers ∧ p ∈ peers.keys := by
  obtain ⟨k, peers, hk⟩ := OrderedMap.exists_get?_of_ne_empty hne
  obtain ⟨p, _, hp⟩ := OrderedMap.exists_get?_of_ne_empty (h k peers hk).1
  exact ⟨k, peers, p, hk, OrderedMap.mem_keys_of_mem (OrderedMap.get?_eq_some_iff.mp hp)⟩

/-- Without empty groups, an owner is there only for the sake of a binding. -/
theorem NoEmptyGroup.exists_mem_toList {l : BindingListing ι} (h : l.NoEmptyGroup) {o : ι}
    {groups : BindingGroups ι} (ho : l.owners.get? o = some groups) :
    ∃ g k p, (o, g, k, p) ∈ l.toList := by
  obtain ⟨groups_ne, hgroups⟩ := h o groups ho
  obtain ⟨g, entries, hg⟩ := OrderedMap.exists_get?_of_ne_empty groups_ne
  obtain ⟨entries_ne, hentries⟩ := hgroups g entries hg
  obtain ⟨k, peers, p, hk, hp⟩ := exists_peer_of_ne_empty entries_ne hentries
  refine ⟨g, k, p, ?_⟩
  rwa [mem_toList, contains, OrderedMap.inner_of_get? ho, OrderedMap.inner_of_get? hg,
    OrderedMap.inner_of_get? hk, OrderedMap.contains_eq_true]

theorem NoEmptyGroup.isEmpty_iff {l : BindingListing ι} (h : l.NoEmptyGroup) :
    l.isEmpty = true ↔ l.toList = [] := by
  rw [isEmpty, OrderedMap.isEmpty_iff]
  constructor
  · intro he
    rw [toList, he]
    rfl
  · intro he
    by_contra hne
    obtain ⟨o, groups, ho⟩ := OrderedMap.exists_get?_of_ne_empty hne
    obtain ⟨g, k, p, hmem⟩ := h.exists_mem_toList ho
    rw [he] at hmem
    cases hmem

/-- The part of a listing that belongs to an owner. -/
theorem filter_toList_owner (l : BindingListing ι) (o : ι) :
    l.toList.filter (·.1 = o) = (l.owners.inner o).toList.flatMap fun g =>
      g.2.toList.flatMap fun h => h.2.keys.map fun peer => (o, g.1, h.1, peer) := by
  rw [toList, OrderedMap.toList, OrderedMap.filter_flatMap_entries l.owners _
    (fun e : ι × String × String × ι => e.1) (by grind) o, OrderedMap.inner]
  cases l.owners.get? o <;> rfl

/-- The keys of an owner come in the order in which the listing has them. -/
theorem NoEmptyGroup.map_find?_toList {l : BindingListing ι} (h : l.NoEmptyGroup) (o : ι)
    (q : String → Bool) :
    ((l.toList.filter (·.1 = o)).find? fun e => q e.2.1).map (·.2.1) =
      (l.owners.inner o).keys.find? q := by
  rw [filter_toList_owner]
  refine OrderedMap.map_find?_flatMap_entries _ _ (fun e : ι × String × String × ι => e.2.1) ?_
    (by grind) q
  -- every key of the owner stands for some binding
  rintro ⟨g, entries⟩ hg
  have groups := OrderedMap.IsFilled.inner h OrderedMap.isFilled_empty o
  obtain ⟨entries_ne, hentries⟩ := groups g entries (OrderedMap.get?_eq_some_iff.mpr hg)
  obtain ⟨k, peers, p, hk, hp⟩ := exists_peer_of_ne_empty entries_ne hentries
  have hmem : (o, g, k, p) ∈ entries.toList.flatMap fun h => h.2.keys.map fun peer =>
      (o, g, h.1, peer) :=
    List.mem_flatMap.mpr ⟨(k, peers), OrderedMap.get?_eq_some_iff.mp hk, List.mem_map_of_mem hp⟩
  exact List.ne_nil_of_mem hmem

end BindingListing

end Ecoa
