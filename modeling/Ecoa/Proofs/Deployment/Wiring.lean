import Ecoa.Proofs.Deployment.Placement
import Mathlib.Data.List.Sort

/-!
# Services along wires

`ListsEdgesAt` is all that is known of a listing of the edges at a node: it has each of them once,
from either of its ends. The numbers of the edges then decide the order, so that any listing leads
to the services that a walk over the wires finds.
-/

namespace Ecoa

theorem filterMap_eq_of_forall₂ {α β γ : Type} {f : α → Option γ} {g : β → Option γ} {xs : List α}
    {ys : List β} (h : List.Forall₂ (fun x y => f x = g y) xs ys) :
    xs.filterMap f = ys.filterMap g := by
  induction h with
  | nil => rfl
  | cons hx _ ih => rw [List.filterMap_cons, List.filterMap_cons, hx, ih]

namespace WireEdge

variable {e : WireEdge} {node : Nat} {edges listed : List WireEdge}

/-- The node is an end of the edge. -/
def Meets (e : WireEdge) (node : Nat) : Prop := e.source = node ∨ e.target = node

instance (node : Nat) : DecidablePred fun e : WireEdge => e.Meets node :=
  fun _ => inferInstanceAs (Decidable (_ ∨ _))

/-- The other end is the same from whichever end the edge is listed. -/
theorem farEnd_reverse (h : e.Meets node) : e.reverse.farEnd node = e.farEnd node := by
  unfold farEnd reverse
  rcases h with h | h <;> split <;> simp_all

theorem insertByNumber_eq (e : WireEdge) (edges : List WireEdge) :
    insertByNumber e edges = edges.orderedInsert (fun e f => e.number ≤ f.number) e := by
  induction edges with
  | nil => rfl
  | cons f rest ih => rw [insertByNumber, List.orderedInsert_cons, ih]

theorem sortByNumber_eq (edges : List WireEdge) :
    sortByNumber edges = edges.insertionSort fun e f => e.number ≤ f.number := by
  unfold sortByNumber List.insertionSort
  rw [funext fun e => funext fun edges => insertByNumber_eq e edges]

theorem sortByNumber_perm (edges : List WireEdge) : (sortByNumber edges).Perm edges := by
  rw [sortByNumber_eq]
  exact List.perm_insertionSort _ edges

theorem pairwise_sortByNumber (edges : List WireEdge) :
    (sortByNumber edges).Pairwise fun e f => e.number ≤ f.number := by
  have : Std.Total fun e f : WireEdge => e.number ≤ f.number := ⟨fun _ _ => Nat.le_total _ _⟩
  have : IsTrans WireEdge fun e f => e.number ≤ f.number := ⟨fun _ _ _ => Nat.le_trans⟩
  rw [sortByNumber_eq]
  exact List.pairwise_insertionSort _ edges

/-- What a node sees of an edge. -/
def seenFrom (node : Nat) (e : WireEdge) : Nat × Nat := (e.number, e.farEnd node)

/-- Edges of different numbers are sorted in one way. -/
theorem map_seenFrom_sortByNumber (h : edges.Pairwise fun e f => e.number < f.number)
    (hlisted : (listed.map (seenFrom node)).Perm (edges.map (seenFrom node))) :
    (sortByNumber listed).map (seenFrom node) = edges.map (seenFrom node) := by
  have hperm := ((sortByNumber_perm listed).map (seenFrom node)).trans hlisted
  have hnumbers : (edges.map (·.number)).Nodup :=
    List.pairwise_map.mpr (h.imp Nat.ne_of_lt)
  have hsorted : ((sortByNumber listed).map (seenFrom node)).Pairwise fun a b => a.1 ≤ b.1 :=
    List.pairwise_map.mpr (pairwise_sortByNumber listed)
  have hsorted' : (edges.map (seenFrom node)).Pairwise fun a b => a.1 ≤ b.1 :=
    List.pairwise_map.mpr (h.imp Nat.le_of_lt)
  refine hperm.eq_of_pairwise (fun a b ha hb hab hba => ?_) hsorted hsorted'
  obtain ⟨e, he, rfl⟩ := List.mem_map.mp (hperm.mem_iff.mp ha)
  obtain ⟨f, hf, rfl⟩ := List.mem_map.mp hb
  rw [List.inj_on_of_nodup_map hnumbers he hf (Nat.le_antisymm hab hba)]

end WireEdge

namespace Wiring

variable {g : Wiring} {node : Nat} {s t : ComponentService} {listed : List WireEdge}
  {wires : List (ComponentService × ComponentService)}

/-- The list has each edge at the node once, from either of its ends. -/
def ListsEdgesAt (g : Wiring) (node : Nat) (listed : List WireEdge) : Prop :=
  ∃ edges : List WireEdge, edges.Perm (g.edges.filter (·.Meets node)) ∧
    List.Forall₂ (fun e f => f = e ∨ f = e.reverse) edges listed

theorem listsEdgesAt_edgesAt (g : Wiring) (node : Nat) : g.ListsEdgesAt node (g.edgesAt node) := by
  refine ⟨(g.edges.filter (·.source = node)).reverse ++
    (g.edges.filter fun e => e.target = node ∧ e.source ≠ node).reverse, ?_, ?_⟩
  · have hfrom : (g.edges.filter (·.Meets node)).filter (·.source = node) =
        g.edges.filter (·.source = node) := by
      rw [List.filter_filter]
      exact List.filter_congr fun e _ => by grind [WireEdge.Meets]
    have hto : ((g.edges.filter (·.Meets node)).filter fun e => !decide (e.source = node)) =
        g.edges.filter fun e => e.target = node ∧ e.source ≠ node := by
      rw [List.filter_filter]
      exact List.filter_congr fun e _ => by grind [WireEdge.Meets]
    have hsplit := List.filter_append_perm (·.source = node) (g.edges.filter (·.Meets node))
    rw [hfrom, hto] at hsplit
    exact ((List.reverse_perm _).append (List.reverse_perm _)).trans hsplit
  · refine List.rel_append (List.forall₂_same.mpr fun _ _ => .inl rfl) ?_
    rw [List.forall₂_map_right_iff, List.forall₂_same]
    exact fun _ _ => .inr rfl

/-- A node sees the same edges in any listing. -/
theorem ListsEdgesAt.map_seenFrom (h : g.ListsEdgesAt node listed) :
    (listed.map (WireEdge.seenFrom node)).Perm
      ((g.edges.filter (·.Meets node)).map (WireEdge.seenFrom node)) := by
  obtain ⟨edges, hperm, hlisted⟩ := h
  have hsame : listed.map (WireEdge.seenFrom node) = edges.map (WireEdge.seenFrom node) := by
    have hmeets : ∀ e ∈ edges, e.Meets node := fun e he =>
      of_decide_eq_true (List.mem_filter.mp (hperm.mem_iff.mp he)).2
    clear hperm
    induction hlisted with
    | nil => rfl
    | @cons e f edges listed hef _ ih =>
      rw [List.forall_mem_cons] at hmeets
      rw [List.map_cons, List.map_cons, ih hmeets.2]
      rcases hef with rfl | rfl
      · rfl
      · rw [WireEdge.seenFrom, WireEdge.farEnd_reverse hmeets.1]
        rfl
  rw [hsame]
  exact hperm.map _

/-! ## Numbering the services -/

/-- The numbers of the services are their places. -/
def IsNumbered (g : Wiring) : Prop := ∀ s n, g.nodes.get? s = some n ↔ g.services[n]? = some s

/-- A service has its number from then on, and the others keep theirs. -/
theorem IsNumbered.intern (h : g.IsNumbered) (s : ComponentService) :
    (g.intern s).1.IsNumbered ∧ (g.intern s).1.services[(g.intern s).2]? = some s ∧
      g.services <+: (g.intern s).1.services ∧ (g.intern s).1.edges = g.edges := by
  unfold Wiring.intern
  split
  · next n hn => exact ⟨h, (h s n).mp hn, List.prefix_refl _, rfl⟩
  · next hnone =>
    refine ⟨fun t n => ?_, List.getElem?_concat_length, List.prefix_append _ _, rfl⟩
    have hs := h s n
    have ht := h t n
    grind [OrderedMap.get?_insert]

/-- The nodes are the services of the wires, the edges the wires. -/
structure IsGraphOf (g : Wiring) (wires : List (ComponentService × ComponentService)) : Prop where
  isNumbered : g.IsNumbered
  edges : List.Forall₂ (fun e w => g.services[e.source]? = some w.1.1 ∧
    g.services[e.target]? = some w.1.2 ∧ e.number = w.2) g.edges wires.zipIdx

theorem isGraphOf_empty : empty.IsGraphOf [] :=
  ⟨fun s n => by simp [empty], .nil⟩

/-- One more wire is one more edge. -/
theorem IsGraphOf.connect (h : g.IsGraphOf wires) (w : ComponentService × ComponentService) :
    (g.connect w wires.length).IsGraphOf (wires ++ [w]) := by
  obtain ⟨hnumbered, hsource, hkeeps, hedges⟩ := h.isNumbered.intern w.1
  obtain ⟨hnumbered', htarget, hkeeps', hedges'⟩ := hnumbered.intern w.2
  have hkept : ∀ {t : ComponentService} {n : Nat}, g.services[n]? = some t →
      ((g.intern w.1).1.intern w.2).1.services[n]? = some t := by
    intro t n ht
    obtain ⟨hn, rfl⟩ := List.getElem?_eq_some_iff.mp ht
    exact List.prefix_iff_getElem?.mp (hkeeps.trans hkeeps') n hn
  have hconnect : (g.connect w wires.length).edges =
      g.edges ++ [⟨(g.intern w.1).2, ((g.intern w.1).1.intern w.2).2, wires.length⟩] := by
    rw [← hedges, ← hedges']
    rfl
  refine ⟨hnumbered', ?_⟩
  rw [hconnect, List.zipIdx_append, Nat.zero_add, List.zipIdx_singleton]
  refine List.rel_append ?_ (.cons ⟨?_, htarget, rfl⟩ .nil)
  · exact h.edges.imp fun e w he => ⟨hkept he.1, hkept he.2.1, he.2.2⟩
  · obtain ⟨hn, hget⟩ := List.getElem?_eq_some_iff.mp hsource
    exact (List.prefix_iff_getElem?.mp hkeeps' _ hn).trans (congrArg some hget)

theorem isGraphOf_ofWires (wires : List (ComponentService × ComponentService)) :
    (ofWires wires).IsGraphOf wires := by
  unfold ofWires
  induction wires using List.reverseRecOn with
  | nil => exact isGraphOf_empty
  | append_singleton wires w ih =>
    rw [List.zipIdx_append, List.foldl_append, Nat.zero_add]
    exact ih.connect w

/-! ## Walking along the wires -/

namespace IsGraphOf

variable (h : g.IsGraphOf wires)

include h

theorem pairwise_number : g.edges.Pairwise fun e f => e.number < f.number := by
  have hnumbers : g.edges.map (·.number) = wires.zipIdx.map Prod.snd := by
    rw [← List.forall₂_eq_eq_eq, List.forall₂_map_left_iff, List.forall₂_map_right_iff]
    exact h.edges.imp fun _ _ he => he.2.2
  rw [← List.pairwise_map (f := WireEdge.number) (R := (· < ·)), hnumbers, List.zipIdx_map_snd]
  exact List.pairwise_lt_range'

/-- A node has the service that has the node. -/
theorem services_iff (hnode : g.nodes.get? s = some node) {i : Nat} :
    g.services[i]? = some s ↔ i = node := by
  rw [← h.isNumbered s i, hnode, Option.some.injEq, eq_comm]

/-- The edges of a node, in order, lead to what its wires have at their other ends. -/
theorem filterMap_edges (hnode : g.nodes.get? s = some node) :
    (g.edges.filter (·.Meets node)).filterMap (g.services[·.farEnd node]?) =
      wires.filterMap (Deployment.otherEnd? s) := by
  have hwires : wires.filterMap (Deployment.otherEnd? s) =
      wires.zipIdx.filterMap fun w => Deployment.otherEnd? s w.1 := by
    conv_lhs => rw [← List.zipIdx_map_fst 0 wires, List.filterMap_map]
    rfl
  rw [hwires, List.filterMap_filter]
  refine filterMap_eq_of_forall₂ (h.edges.imp fun e w he => ?_)
  obtain ⟨hsource, htarget, -⟩ := he
  have hfrom : w.1.1 = s ↔ e.source = node := by
    rw [← h.services_iff hnode, hsource, Option.some.injEq]
  have hto : w.1.2 = s ↔ e.target = node := by
    rw [← h.services_iff hnode, htarget, Option.some.injEq]
  simp only [WireEdge.Meets, WireEdge.farEnd, Deployment.otherEnd?, hfrom, hto]
  by_cases hs : e.source = node
  · simp [hs, htarget]
  · simp [hs, hsource]

/-- A service without a node is no end of a wire. -/
theorem otherEnd?_eq_none (hnode : g.nodes.get? s = none) {w : ComponentService × ComponentService}
    (hw : w ∈ wires) : Deployment.otherEnd? s w = none := by
  obtain ⟨n, hn⟩ := List.mem_iff_getElem?.mp hw
  have hmem : (w, n) ∈ wires.zipIdx := by
    rwa [List.mem_zipIdx_iff_getElem?]
  obtain ⟨e, -, hsource, htarget, -⟩ := exists_rel_of_mem h.edges hmem
  have hother : ∀ {i : Nat} {t : ComponentService}, g.services[i]? = some t → t ≠ s := by
    rintro i t ht rfl
    exact nomatch hnode.symm.trans ((h.isNumbered t i).mpr ht)
  rw [Deployment.otherEnd?, if_neg (hother hsource), if_neg (hother htarget)]

/-- Along any listing of edges a service finds what the walk over the wires does. -/
theorem servicesAlong_eq {edgesAt : Nat → List WireEdge}
    (hlists : ∀ n, g.ListsEdgesAt n (edgesAt n)) (s : ComponentService) :
    g.servicesAlong edgesAt s = wires.filterMap (Deployment.otherEnd? s) := by
  unfold servicesAlong
  cases hnode : g.nodes.get? s with
  | none =>
    symm
    rw [List.filterMap_eq_nil_iff]
    exact fun w hw => h.otherEnd?_eq_none hnode hw
  | some node =>
    have hsorted := WireEdge.map_seenFrom_sortByNumber
      (h.pairwise_number.filter (·.Meets node)) (hlists node).map_seenFrom
    calc (WireEdge.sortByNumber (edgesAt node)).filterMap (g.services[·.farEnd node]?)
        = ((WireEdge.sortByNumber (edgesAt node)).map (WireEdge.seenFrom node)).filterMap
            (g.services[·.2]?) := by rw [List.filterMap_map]; rfl
      _ = ((g.edges.filter (·.Meets node)).map (WireEdge.seenFrom node)).filterMap
            (g.services[·.2]?) := by rw [hsorted]
      _ = (g.edges.filter (·.Meets node)).filterMap (g.services[·.farEnd node]?) := by
          rw [List.filterMap_map]; rfl
      _ = wires.filterMap (Deployment.otherEnd? s) := h.filterMap_edges hnode

end IsGraphOf

end Wiring

/-! ## The wires of an assembly -/

/-- A wire of the assembly joins the services, in either direction. -/
def Declared.Assembly.Joins (a : Declared.Assembly) (p q : ComponentService) : Prop :=
  ∃ w ∈ a.wires, (w.source = p ∧ w.target = q) ∨ (w.source = q ∧ w.target = p)

namespace Deployment

theorem otherEnd?_eq_some {p q : ComponentService} {w : ComponentService × ComponentService} :
    otherEnd? p w = some q ↔ (w.1 = p ∧ w.2 = q) ∨ (w.1 = q ∧ w.2 = p) := by
  unfold otherEnd?
  split
  · next h =>
    subst h
    rw [Option.some.injEq]
    constructor
    · intro h
      exact .inl ⟨rfl, h⟩
    · rintro (⟨-, h⟩ | ⟨h, h'⟩)
      · exact h
      · exact h'.trans h
  · next h => simp [h, and_comm]

variable {deployment : Declared.Deployment} {a : Declared.Assembly} {d : Deployment}
  {p q : ComponentService}

theorem wiredServices_eq (d : Deployment) (s : ComponentService) :
    d.wiredServices s = d.wires.filterMap (otherEnd? s) :=
  (Wiring.isGraphOf_ofWires d.wires).servicesAlong_eq (Wiring.listsEdgesAt_edgesAt d.wiring) s

/-- Along the edges a service finds the same services, however the graph lists them. -/
theorem servicesAlong_wiring (d : Deployment) {edgesAt : Nat → List WireEdge}
    (hlists : ∀ n, d.wiring.ListsEdgesAt n (edgesAt n)) (s : ComponentService) :
    d.wiring.servicesAlong edgesAt s = d.wiredServices s := by
  rw [wiredServices_eq]
  exact (Wiring.isGraphOf_ofWires d.wires).servicesAlong_eq hlists s

theorem mem_wiredServices :
    q ∈ d.wiredServices p ↔ ∃ w ∈ d.wires, (w.1 = p ∧ w.2 = q) ∨ (w.1 = q ∧ w.2 = p) := by
  simp only [wiredServices_eq, List.mem_filterMap, otherEnd?_eq_some]

theorem wires_of_build (h : build deployment a = .ok d) :
    d.wires = a.wires.map fun w => (w.source, w.target) := by
  obtain ⟨placements, -, h⟩ := bind_ok_iff.mp h
  obtain ⟨wires, hwires, ⟨⟩⟩ := bind_ok_iff.mp h
  have hmap : wires = a.wires.zipIdx.map fun w => (w.1.source, w.1.target) :=
    eq_map_of_mapM_ok (fun _ _ hconnect => (connect_ok_iff.mp hconnect).2.2) hwires
  calc wires = (a.wires.zipIdx.map Prod.fst).map fun w => (w.source, w.target) := by
        rw [hmap, List.map_map]; rfl
    _ = a.wires.map fun w => (w.source, w.target) := by rw [List.zipIdx_map_fst]

/-- The wires of the assembly are those along which services are found. -/
theorem mem_wiredServices_of_build (h : build deployment a = .ok d) :
    q ∈ d.wiredServices p ↔ a.Joins p q := by
  rw [mem_wiredServices, wires_of_build h]
  simp only [List.mem_map, Declared.Assembly.Joins]
  constructor
  · rintro ⟨_, ⟨w, hw, rfl⟩, h⟩
    exact ⟨w, hw, h⟩
  · rintro ⟨w, hw, h⟩
    exact ⟨_, ⟨w, hw, rfl⟩, h⟩

/-- A service finds another as often as wires of the assembly join the two. -/
theorem count_wiredServices_of_build (h : build deployment a = .ok d) (p q : ComponentService) :
    (d.wiredServices p).count q = a.wires.countP fun w =>
      (w.source = p ∧ w.target = q) ∨ (w.source = q ∧ w.target = p) := by
  rw [wiredServices_eq, wires_of_build h, List.count_filterMap, List.countP_map]
  refine List.countP_congr fun w _ => ?_
  rw [Function.comp_apply, beq_iff_eq, otherEnd?_eq_some, decide_eq_true_eq]

/-- Along the wires of a deployment that is built, a service finds the other end of each wire of the
assembly that has the service as an end, one wire after the other, in whatever order the graph lists
the edges at its nodes. Two services find each other equally often. -/
theorem wiredServices_of_build (h : build deployment a = .ok d)
    {edgesAt : Nat → List WireEdge} (hlists : ∀ n, d.wiring.ListsEdgesAt n (edgesAt n))
    (p : ComponentService) :
    d.wiredServices p = (a.wires.filterMap fun w =>
      if w.source = p then some w.target else if w.target = p then some w.source else none) ∧
    d.wiring.servicesAlong edgesAt p = d.wiredServices p ∧
    ∀ q, ((d.wiredServices p).count q = a.wires.countP fun w =>
        (w.source = p ∧ w.target = q) ∨ (w.source = q ∧ w.target = p)) ∧
      (d.wiredServices p).count q = (d.wiredServices q).count p := by
  refine ⟨?_, d.servicesAlong_wiring hlists p, fun q =>
    ⟨count_wiredServices_of_build h p q, ?_⟩⟩
  · rw [wiredServices_eq, wires_of_build h, List.filterMap_map]
    rfl
  · rw [count_wiredServices_of_build h, count_wiredServices_of_build h]
    exact List.countP_congr fun w _ => by rw [decide_eq_true_eq, decide_eq_true_eq, or_comm]

/-- Two wires join the same services in opposite directions, and a third joins one to itself. -/
theorem wiredServices_of_build_parallel :
    let a : Declared.Assembly := ⟨[⟨"a", "C", ∅⟩, ⟨"b", "C", ∅⟩],
      [⟨⟨"a", "s"⟩, ⟨"b", "t"⟩⟩, ⟨⟨"a", "s"⟩, ⟨"a", "s"⟩⟩, ⟨⟨"b", "t"⟩, ⟨"a", "s"⟩⟩]⟩
    ∃ d, build ⟨[]⟩ a = .ok d ∧ d.wiredServices ⟨"a", "s"⟩ = [⟨"b", "t"⟩, ⟨"a", "s"⟩, ⟨"b", "t"⟩] ∧
      (d.wiredServices ⟨"b", "t"⟩).count ⟨"a", "s"⟩ = 2 := by
  intro a
  obtain ⟨d, hd⟩ : ∃ d, build ⟨[]⟩ a = .ok d := ⟨_, rfl⟩
  obtain ⟨hwalk, -, hcount⟩ :=
    wiredServices_of_build hd (Wiring.listsEdgesAt_edgesAt d.wiring) ⟨"a", "s"⟩
  obtain ⟨hjoined, hmutual⟩ := hcount ⟨"b", "t"⟩
  exact ⟨d, hd, hwalk.trans (by decide), hmutual.symm.trans (hjoined.trans (by decide))⟩

end Deployment

end Ecoa
