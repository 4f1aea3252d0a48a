import Mathlib.Data.List.Perm.Basic
import Ecoa.Proofs.TypeOrder.Cycle

/-!
# Sorted declarations

`Settled placed`: every position in the list stands once and after all that it needs, and its
references mean something. A successful visit keeps this and places its position (`visit_ok`). A
settled list of all positions leaves no room for a cycle; without one a run has nothing to report.
-/

namespace Ecoa.TypeOrder

open Relation (TransGen)

/-- Every position stands once and after all that it needs. -/
structure Settled (s : TypeOrder) (placed : List Nat) : Prop where
  nodup : placed.Nodup
  resolves : ∀ i ∈ placed, ∀ d, s.decls[i]? = some d → s.ResolvesAt d
  ordered : ∀ l₁ i l₂, placed = l₁ ++ i :: l₂ → ∀ j, s.Needs i j → j ∈ l₁

theorem settled_nil (s : TypeOrder) : s.Settled [] where
  nodup := .nil
  resolves := nofun
  ordered l₁ i l₂ h := by simp at h

theorem Settled.concat {s : TypeOrder} {placed : List Nat} (h : s.Settled placed) {i : Nat}
    {d : TypeDecl} (hd : s.decls[i]? = some d) (hi : i ∉ placed) (hr : s.ResolvesAt d)
    (hn : ∀ j, s.Needs i j → j ∈ placed) : s.Settled (placed ++ [i]) where
  nodup := by
    refine List.nodup_append.mpr ⟨h.nodup, List.pairwise_singleton _ i, fun a ha b hb => ?_⟩
    rintro rfl
    exact hi (List.mem_singleton.mp hb ▸ ha)
  resolves k hk e he := by
    rcases List.mem_append.mp hk with hk | hk
    · exact h.resolves k hk e he
    · obtain rfl := List.mem_singleton.mp hk
      obtain rfl := Option.some.inj (hd.symm.trans he)
      exact hr
  ordered l₁ k l₂ hl j hj := by
    -- the position is the new last one, or it stood among the old ones
    rcases List.eq_nil_or_concat l₂ with rfl | ⟨l₂, z, rfl⟩
    · obtain ⟨rfl, hik⟩ := List.append_inj' hl rfl
      cases hik
      exact hn j hj
    · rw [List.concat_eq_append, ← List.cons_append, ← List.append_assoc] at hl
      exact h.ordered l₁ k l₂ (List.append_inj' hl rfl).1 j hj

/-- `more` has `placed` as its beginning, and after it free positions only. -/
def Extends (free placed more : List Nat) : Prop :=
  ∃ new, more = placed ++ new ∧ ∀ k ∈ new, k ∈ free

theorem Extends.refl (free placed : List Nat) : Extends free placed placed :=
  ⟨[], (List.append_nil placed).symm, nofun⟩

theorem Extends.trans {free a b c : List Nat} (hab : Extends free a b) (hbc : Extends free b c) :
    Extends free a c := by
  obtain ⟨m, rfl, hm⟩ := hab
  obtain ⟨n, rfl, hn⟩ := hbc
  refine ⟨m ++ n, List.append_assoc .., fun k hk => ?_⟩
  exact (List.mem_append.mp hk).elim (hm k) (hn k)

theorem Extends.subset {free a b : List Nat} (h : Extends free a b) : a ⊆ b := by
  obtain ⟨m, rfl, -⟩ := h
  exact List.subset_append_left a m

theorem Extends.mono {free free' a b : List Nat} (h : Extends free a b) (hf : free ⊆ free') :
    Extends free' a b := by
  obtain ⟨m, rfl, hm⟩ := h
  exact ⟨m, rfl, fun k hk => hf (hm k hk)⟩

theorem Extends.concat {free a b : List Nat} (h : Extends free a b) {i : Nat} (hi : i ∈ free) :
    Extends free a (b ++ [i]) :=
  h.trans ⟨[i], rfl, fun _ hk => List.mem_singleton.mp hk ▸ hi⟩

/-- What a reference leads to is placed. -/
def IsMet (s : TypeOrder) (d : TypeDecl) (placed : List Nat) (ref : TypeReference) : Prop :=
  ∃ x, s.target d ref = .ok x ∧ ∀ j, x = some j → j ∈ placed

theorem IsMet.mono {s : TypeOrder} {d : TypeDecl} {placed placed' : List Nat} {ref : TypeReference}
    (h : s.IsMet d placed ref) (hsub : placed ⊆ placed') : s.IsMet d placed' ref := by
  obtain ⟨x, hx, hin⟩ := h
  exact ⟨x, hx, fun j hj => hsub (hin j hj)⟩

/-- What the visit of a position does to the placed ones, when it succeeds. -/
def Places (s : TypeOrder) (free : List Nat) (i : Nat) (placed placed' : List Nat) : Prop :=
  s.Settled placed' ∧ i ∈ placed' ∧ Extends free placed placed'

/-- When the visits of positions place them, going through references meets them all. -/
theorem visitReferences_ok {s : TypeOrder} {free path placed placed' : List Nat} {d : TypeDecl}
    (hvisit : ∀ j now next, j < s.decls.length → s.Settled now →
      s.visit free path j now = .ok next → s.Places free j now next)
    (hs : s.Settled placed)
    (h : d.references.foldlM (s.visitReference free path d) placed = .ok placed') :
    s.Settled placed' ∧ Extends free placed placed' ∧
      ∀ ref ∈ d.references, s.IsMet d placed' ref := by
  -- the invariant speaks of the references that are done
  refine foldlM_ok_invariant
    (fun done now => s.Settled now ∧ Extends free placed now ∧ ∀ ref ∈ done, s.IsMet d now ref)
    ?_ ⟨hs, .refl .., nofun⟩ h
  rintro done ref now next ⟨hnow, hextends, hdone⟩ - hstep
  rcases visitReference_ok_iff.mp hstep with ⟨j, hx, hj⟩ | ⟨hx, rfl⟩
  · obtain ⟨hnext, hmem, hmore⟩ := hvisit j now next (lt_of_target hx) hnow hj
    refine ⟨hnext, hextends.trans hmore, fun r hr => ?_⟩
    rcases List.mem_append.mp hr with hr | hr
    · exact (hdone r hr).mono hmore.subset
    · obtain rfl := List.mem_singleton.mp hr
      exact ⟨some j, hx, fun k hk => Option.some.inj hk ▸ hmem⟩
  · refine ⟨hnow, hextends, fun r hr => ?_⟩
    rcases List.mem_append.mp hr with hr | hr
    · exact hdone r hr
    · obtain rfl := List.mem_singleton.mp hr
      exact ⟨none, hx, nofun⟩

/-- A visit that succeeds places its position after all that it needs, and else only free ones. -/
theorem visit_ok {s : TypeOrder} {free path : List Nat} {i : Nat} {placed placed' : List Nat}
    (hfree : free.Nodup) (hi : i < s.decls.length) (hs : s.Settled placed)
    (h : s.visit free path i placed = .ok placed') : s.Places free i placed placed' := by
  have hd : s.decls[i]? = some s.decls[i] := List.getElem?_eq_getElem hi
  obtain ⟨hp, rfl⟩ | ⟨hp, hf, before, rfl, hbefore⟩ := (visit_ok_iff hd).mp h
  · exact ⟨hs, hp, .refl ..⟩
  · obtain ⟨hset, hext, hmet⟩ := visitReferences_ok
      (fun j now next hj hnow => visit_ok (hfree.erase i) hj hnow) hs hbefore
    have hfresh : i ∉ before := by
      obtain ⟨new, rfl, hnew⟩ := hext
      intro hmem
      rcases List.mem_append.mp hmem with hmem | hmem
      · exact hp hmem
      · exact hfree.not_mem_erase (hnew i hmem)
    have hresolves : s.ResolvesAt s.decls[i] := fun ref href => by
      obtain ⟨x, hx, -⟩ := hmet ref href
      obtain ⟨t, ht, -⟩ := target_eq_ok_iff.mp hx
      exact ⟨t, ht⟩
    have hneeds : ∀ j, s.Needs i j → j ∈ before := fun j hj => by
      obtain ⟨ref, href, ht⟩ := (needs_iff_target hd).mp hj
      obtain ⟨x, hx, hin⟩ := hmet ref href
      exact hin j (Except.ok.inj (hx.symm.trans ht))
    exact ⟨hset.concat hd hfresh hresolves hneeds,
      List.mem_append_right _ (List.mem_singleton_self i),
      (hext.mono List.erase_subset).concat hf⟩
termination_by free.length
decreasing_by exact length_erase_lt ‹i ∈ free›

/-! ## All declarations -/

/-- Visits that succeed place their positions after all that these need, behind what is placed. -/
theorem visitEach_ok {s : TypeOrder} {free path roots placed placed' : List Nat}
    (hfree : free.Nodup) (hroots : ∀ i ∈ roots, i < s.decls.length) (hs : s.Settled placed)
    (h : s.visitEach free path roots placed = .ok placed') :
    s.Settled placed' ∧ Extends free placed placed' ∧ ∀ i ∈ roots, i ∈ placed' := by
  -- the invariant speaks of the positions that are visited by now
  refine foldlM_ok_invariant (fun done now => s.Settled now ∧ Extends free placed now ∧
    ∀ i ∈ done, i ∈ now) ?_ ⟨hs, .refl .., nofun⟩ h
  rintro done i now next ⟨hnow, hextends, hdone⟩ hi hstep
  obtain ⟨hnext, hmem, hmore⟩ := visit_ok hfree (hroots i hi) hnow hstep
  refine ⟨hnext, hextends.trans hmore, fun k hk => ?_⟩
  rcases List.mem_append.mp hk with hk | hk
  · exact hmore.subset (hdone k hk)
  · exact List.mem_singleton.mp hk ▸ hmem

theorem visitAll_ok {s : TypeOrder} {roots placed placed' : List Nat}
    (hroots : ∀ i ∈ roots, i < s.decls.length) (hs : s.Settled placed)
    (h : s.visitAll roots placed = .ok placed') :
    s.Settled placed' ∧ Extends (List.range s.decls.length) placed placed' ∧
      ∀ i ∈ roots, i ∈ placed' :=
  visitEach_ok List.nodup_range hroots hs h

/-- A successful run places every position. -/
theorem positions_ok {s : TypeOrder} {order : List Nat} (h : s.positions = .ok order) :
    s.Settled order ∧ order.Perm (List.range s.decls.length) := by
  obtain ⟨hset, ⟨new, hnew, hrange⟩, hall⟩ :=
    visitAll_ok (fun i hi => List.mem_range.mp hi) s.settled_nil h
  refine ⟨hset, (List.perm_ext_iff_of_nodup hset.nodup List.nodup_range).mpr fun k => ?_⟩
  exact ⟨fun hk => hrange k (by rwa [hnew, List.nil_append] at hk), hall k⟩

/-- Where all references mean something and nothing needs itself, there is nothing to report. -/
theorem positions_succeed {s : TypeOrder} (hr : s.Resolves) (ha : s.IsAcyclic) :
    ∃ order, s.positions = .ok order := by
  cases h : s.positions with
  | ok order => exact ⟨order, rfl⟩
  | error e =>
    rcases positions_error h with ⟨d, hd, ref, href, hmeans, -⟩ | ⟨first, inner, hcycle, -⟩
    · obtain ⟨t, ht⟩ := hr d hd ref href
      exact absurd ht (hmeans t)
    · exact absurd hcycle.transGen (ha first)

/-- In a settled list, what a position needs stands before it. -/
theorem Settled.idxOf_lt {s : TypeOrder} {order : List Nat} (h : s.Settled order) {i j : Nat}
    (hi : i ∈ order) (hn : s.Needs i j) : order.idxOf j < order.idxOf i := by
  obtain ⟨l₁, l₂, rfl⟩ := List.append_of_mem hi
  have hj : j ∈ l₁ := h.ordered l₁ i l₂ rfl j hn
  have hfresh : i ∉ l₁ := fun hmem =>
    (List.nodup_append.mp h.nodup).2.2 i hmem i List.mem_cons_self rfl
  rw [List.idxOf_append_of_mem hj, List.idxOf_append_of_notMem hfresh]
  have := List.idxOf_lt_length_of_mem hj
  omega

/-- The same of what it needs through others, in a list of all positions. -/
theorem Settled.idxOf_lt_of_transGen {s : TypeOrder} {order : List Nat} (h : s.Settled order)
    (hall : ∀ i < s.decls.length, i ∈ order) {i j : Nat} (hn : TransGen s.Needs i j) :
    order.idxOf j < order.idxOf i := by
  induction hn with
  | single hn => exact h.idxOf_lt (hall _ hn.lt_left) hn
  | tail _ hn ih => exact Nat.lt_trans (h.idxOf_lt (hall _ hn.lt_left) hn) ih

/-- A settled list of all positions leaves no room for a cycle. -/
theorem Settled.isAcyclic {s : TypeOrder} {order : List Nat} (h : s.Settled order)
    (hall : ∀ i < s.decls.length, i ∈ order) : s.IsAcyclic :=
  fun _ hcycle => absurd (h.idxOf_lt_of_transGen hall hcycle) (Nat.lt_irrefl _)

theorem positions_ok_iff {s : TypeOrder} :
    (∃ order, s.positions = .ok order) ↔ s.Resolves ∧ s.IsAcyclic := by
  constructor
  · rintro ⟨order, h⟩
    obtain ⟨hset, hperm⟩ := positions_ok h
    have hall : ∀ i < s.decls.length, i ∈ order := fun i hi =>
      hperm.mem_iff.mpr (List.mem_range.mpr hi)
    refine ⟨fun d hd => ?_, hset.isAcyclic hall⟩
    obtain ⟨i, hi, rfl⟩ := List.getElem_of_mem hd
    exact hset.resolves i (hall i hi) _ (List.getElem?_eq_getElem hi)
  · rintro ⟨hr, ha⟩
    exact positions_succeed hr ha

/-- Picking the elements at positions that exist loses none. -/
theorem map_some_filterMap_getElem? {α : Type} {xs : List α} {order : List Nat}
    (h : ∀ i ∈ order, i < xs.length) :
    (order.filterMap (xs[·]?)).map some = order.map (xs[·]?) := by
  induction order with
  | nil => rfl
  | cons i order ih =>
    have hi : i < xs.length := h i List.mem_cons_self
    have hx : xs[i]? = some xs[i] := List.getElem?_eq_getElem hi
    rw [List.filterMap_cons_some hx, List.map_cons, List.map_cons, hx,
      ih fun j hj => h j (List.mem_cons_of_mem _ hj)]

/-- Sorted declarations are those at the positions that a run has placed. -/
theorem exists_order_of_sort {s : TypeOrder} {sorted : List TypeDecl} (h : s.sort = .ok sorted) :
    ∃ order, s.positions = .ok order ∧ s.Settled order ∧
      order.Perm (List.range s.decls.length) ∧ sorted.map some = order.map (s.decls[·]?) := by
  obtain ⟨order, horder, rfl⟩ := map_ok_iff.mp h
  obtain ⟨hset, hperm⟩ := positions_ok horder
  refine ⟨order, horder, hset, hperm, map_some_filterMap_getElem? fun i hi => ?_⟩
  exact List.mem_range.mp (hperm.mem_iff.mp hi)

/-- Sorting succeeds exactly when every reference means something and no declaration needs itself;
then the result has every declaration once, after all those that it needs. -/
theorem sort_ok_iff (r : TypeRegistry) (library : String) (decls : List TypeDecl) :
    let s := TypeOrder.new r library decls
    ((∃ sorted, s.sort = .ok sorted) ↔ s.Resolves ∧ s.IsAcyclic) ∧
      ∀ sorted, s.sort = .ok sorted → ∃ order : List Nat,
        order.Perm (List.range decls.length) ∧ sorted.map some = order.map (decls[·]?) ∧
          ∀ l₁ i l₂, order = l₁ ++ i :: l₂ → ∀ j, s.Needs i j → j ∈ l₁ := by
  intro s
  constructor
  · rw [← positions_ok_iff]
    constructor
    · rintro ⟨sorted, h⟩
      obtain ⟨order, horder, -⟩ := map_ok_iff.mp h
      exact ⟨order, horder⟩
    · rintro ⟨order, horder⟩
      exact ⟨_, map_ok_iff.mpr ⟨order, horder, rfl⟩⟩
  · intro sorted h
    obtain ⟨order, -, hset, hperm, hsorted⟩ := exists_order_of_sort h
    exact ⟨order, hperm, hsorted, hset.ordered⟩

end Ecoa.TypeOrder
