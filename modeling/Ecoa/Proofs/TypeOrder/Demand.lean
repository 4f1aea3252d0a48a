import Ecoa.Proofs.TypeOrder.Sort

/-!
# Declarations that move forward

A visit places what the visited position needs, directly or through others, and then this position
itself. A run visits the positions as they are declared. So when a position is placed, whatever is
placed before it is needed by one that is declared no later, or is declared no later itself: a
declaration comes before an earlier one only on behalf of one that is as early and needs it.
-/

namespace Ecoa.TypeOrder

open Relation (ReflTransGen TransGen)

variable {s : TypeOrder} {order : List Nat} {i j : Nat}

/-- What a visit places is needed by the visited position, or is this position. -/
theorem visit_reaches {free path placed placed' : List Nat} {i : Nat} (hi : i < s.decls.length)
    (h : s.visit free path i placed = .ok placed') :
    ∀ k ∈ placed', k ∈ placed ∨ ReflTransGen s.Needs i k := by
  have hd : s.decls[i]? = some s.decls[i] := List.getElem?_eq_getElem hi
  obtain ⟨-, rfl⟩ | ⟨-, hfree, before, rfl, hbefore⟩ := (visit_ok_iff hd).mp h
  · exact fun _ => .inl
  · have hrefs : ∀ k ∈ before, k ∈ placed ∨ ReflTransGen s.Needs i k := by
      refine foldlM_ok_invariant
        (fun _ now => ∀ k ∈ now, k ∈ placed ∨ ReflTransGen s.Needs i k) ?_ (fun _ => .inl) hbefore
      intro done ref now next hnow href hstep k hk
      rcases visitReference_ok_iff.mp hstep with ⟨j, htarget, hvisit⟩ | ⟨-, rfl⟩
      · rcases visit_reaches (lt_of_target htarget) hvisit k hk with hk | hreach
        · exact hnow k hk
        · exact .inr (.head ((needs_iff_target hd).mpr ⟨ref, href, htarget⟩) hreach)
      · exact hnow k hk
    intro k hk
    rcases List.mem_append.mp hk with hk | hk
    · exact hrefs k hk
    · exact .inr (List.mem_singleton.mp hk ▸ .refl)
termination_by free.length
decreasing_by exact length_erase_lt ‹i ∈ free›

/-- What visits place is needed by one of the visited positions, or is one. -/
theorem visitAll_reaches {roots placed placed' : List Nat}
    (hroots : ∀ i ∈ roots, i < s.decls.length) (h : s.visitAll roots placed = .ok placed') :
    ∀ k ∈ placed', k ∈ placed ∨ ∃ i ∈ roots, ReflTransGen s.Needs i k := by
  refine foldlM_ok_invariant
    (fun done now => ∀ k ∈ now, k ∈ placed ∨ ∃ i ∈ done, ReflTransGen s.Needs i k) ?_
    (fun _ => .inl) h
  intro done i now next hnow hi hstep k hk
  rcases visit_reaches (hroots i hi) hstep k hk with hk | hreach
  · refine (hnow k hk).imp id ?_
    rintro ⟨root, hroot, hreach⟩
    exact ⟨root, List.mem_append_left _ hroot, hreach⟩
  · exact .inr ⟨i, List.mem_append_right _ (List.mem_singleton_self i), hreach⟩

/-- When the visit of a position is over, all that is placed is needed by one that is declared no
later, or is declared no later. -/
theorem exists_placed_by (h : s.positions = .ok order) (hi : i < s.decls.length) :
    ∃ early late, order = early ++ late ∧ i ∈ early ∧
      ∀ j ∈ early, ∃ k ≤ i, ReflTransGen s.Needs k j := by
  obtain ⟨rest, hrest⟩ := Nat.exists_eq_add_of_le (Nat.succ_le_of_lt hi)
  rw [positions_eq_visitAll, hrest, List.range_add, visitAll_append_ok_iff] at h
  obtain ⟨early, hearly, hlate⟩ := h
  have hroots : ∀ k ∈ List.range (i + 1), k < s.decls.length := by
    intro k hk
    have := List.mem_range.mp hk
    omega
  have hroots' : ∀ k ∈ (List.range rest).map (i + 1 + ·), k < s.decls.length := by
    intro k hk
    obtain ⟨m, hm, rfl⟩ := List.mem_map.mp hk
    have := List.mem_range.mp hm
    omega
  obtain ⟨hset, -, hplaced⟩ := visitAll_ok hroots s.settled_nil hearly
  obtain ⟨-, ⟨late, horder, -⟩, -⟩ := visitAll_ok hroots' hset hlate
  refine ⟨early, late, horder, hplaced i (List.self_mem_range_succ), fun j hj => ?_⟩
  obtain ⟨k, hk, hreach⟩ := (visitAll_reaches hroots hearly j hj).resolve_left List.not_mem_nil
  exact ⟨k, Nat.le_of_lt_succ (List.mem_range.mp hk), hreach⟩

/-- What stands before an element of a first part is in this part, too. -/
theorem mem_of_append_eq {early late before after : List Nat} (hnodup : (early ++ late).Nodup)
    (hsplit : early ++ late = before ++ i :: after) (hi : i ∈ early) (hj : j ∈ before) :
    j ∈ early := by
  rcases List.append_eq_append_iff.mp hsplit with ⟨between, -, hlate⟩ | ⟨between, hearly, -⟩
  · have hmem : i ∈ late := hlate ▸ List.mem_append_right between List.mem_cons_self
    exact absurd rfl ((List.nodup_append.mp hnodup).2.2 i hi i hmem)
  · exact hearly ▸ List.mem_append_left between hj

/-- In the order in which declarations are sorted, one stands before another that is declared before
it only when some declaration, which is the other one or declared before that, needs it, directly or
through others. -/
theorem sort_ok_moved {r : TypeRegistry} {library : String} {decls sorted : List TypeDecl}
    (h : (TypeOrder.new r library decls).sort = .ok sorted) :
    ∃ order, (TypeOrder.new r library decls).positions = .ok order ∧
      order.Perm (List.range decls.length) ∧ sorted.map some = order.map (decls[·]?) ∧
      ∀ before i after, order = before ++ i :: after → ∀ j ∈ before, i < j →
        ∃ k ≤ i, TransGen (TypeOrder.new r library decls).Needs k j := by
  obtain ⟨order, horder, hset, hperm, hsorted⟩ := exists_order_of_sort h
  refine ⟨order, horder, hperm, hsorted, ?_⟩
  rintro before i after hsplit j hj hlt
  have hi : i < decls.length := by
    refine List.mem_range.mp (hperm.mem_iff.mp ?_)
    rw [hsplit]
    exact List.mem_append_right before List.mem_cons_self
  obtain ⟨early, late, rfl, hearly, hneeded⟩ := exists_placed_by horder hi
  obtain ⟨k, hk, hreach⟩ := hneeded j (mem_of_append_eq hset.nodup hsplit hearly hj)
  refine ⟨k, hk, (Relation.reflTransGen_iff_eq_or_transGen.mp hreach).resolve_left ?_⟩
  omega

/-- A record, one that nothing needs, and below them what the first one needs. -/
def routeTypes : List TypeDecl :=
  [.record "Route" [⟨"legs", "Legs"⟩], .record "Status" [⟨"code", "uint8"⟩],
    .array "Legs" "Leg" "16", .record "Leg" [⟨"length", "float32"⟩]]

def routeRegistry : TypeRegistry := (TypeRegistry.empty.register "nav" routeTypes).1

def sortedRouteTypes : List TypeDecl :=
  [.record "Leg" [⟨"length", "float32"⟩], .array "Legs" "Leg" "16",
    .record "Route" [⟨"legs", "Legs"⟩], .record "Status" [⟨"code", "uint8"⟩]]

/-- `Leg` comes before `Status` on behalf of `Route`, which is declared before both. -/
theorem sort_ok_moved_routeTypes :
    (TypeOrder.new routeRegistry "nav" routeTypes).sort = .ok sortedRouteTypes ∧
      (TypeOrder.new routeRegistry "nav" routeTypes).positions = .ok [3, 2, 0, 1] ∧
      ∃ k ≤ 1, TransGen (TypeOrder.new routeRegistry "nav" routeTypes).Needs k 3 := by
  have hpositions : (TypeOrder.new routeRegistry "nav" routeTypes).positions = .ok [3, 2, 0, 1] := by
    decide +kernel
  have hsort : (TypeOrder.new routeRegistry "nav" routeTypes).sort = .ok sortedRouteTypes :=
    map_ok_iff.mpr ⟨_, hpositions, rfl⟩
  obtain ⟨order, horder, -, -, hmoved⟩ := sort_ok_moved hsort
  cases hpositions.symm.trans horder
  exact ⟨hsort, hpositions, hmoved [3, 2, 0] 1 [] rfl 3 (by decide) (by decide)⟩

end Ecoa.TypeOrder
