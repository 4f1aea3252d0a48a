import Ecoa.Proofs.TypeOrder.Sort

/-!
# Declarations that are in order

Where each declaration stands after all that it needs, no visit goes on to another one that is not
placed yet: a run places the positions as they come, and the declarations stay where they are. These
are the only lists that it leaves alone. What a run has sorted is such a list, when its names are
distinct: a name is then declared at one position only, before the sort and after it.
-/

namespace Ecoa.TypeOrder

/-- Every declaration stands after those that it needs. -/
def IsOrdered (s : TypeOrder) : Prop := ∀ i j, s.Needs i j → j < i

variable {s : TypeOrder} {free path placed order : List Nat} {i j k : Nat} {d : TypeDecl}
  {sorted : List TypeDecl}

/-- A reference to what is placed changes nothing. -/
theorem visitReference_of_isMet {ref : TypeReference} (h : s.IsMet d placed ref) :
    s.visitReference free path d placed ref = .ok placed := by
  obtain ⟨x, hx, hplaced⟩ := h
  rw [visitReference_ok_iff]
  cases x with
  | none => exact .inr ⟨hx, rfl⟩
  | some j =>
    have hd := List.getElem?_eq_getElem (lt_of_target hx)
    exact .inl ⟨j, hx, (visit_ok_iff hd).mpr (.inl ⟨hplaced j rfl, rfl⟩)⟩

/-- A declaration is placed at once when all that it needs is placed. -/
theorem visit_of_needs_placed (hd : s.decls[i]? = some d) (hr : s.ResolvesAt d) (hi : i ∉ placed)
    (hfree : i ∈ free) (hn : ∀ j, s.Needs i j → j ∈ placed) :
    s.visit free path i placed = .ok (placed ++ [i]) := by
  have hmet : ∀ ref ∈ d.references, s.IsMet d placed ref := by
    intro ref href
    obtain ⟨t, ht⟩ := hr ref href
    refine ⟨_, target_eq_ok_iff.mpr ⟨t, ht, rfl⟩, fun j hj => hn j ?_⟩
    exact (needs_iff_target hd).mpr ⟨ref, href, target_eq_ok_iff.mpr ⟨t, ht, hj⟩⟩
  have hrefs : d.references.foldlM (s.visitReference (free.erase i) (path ++ [i]) d) placed =
      .ok placed := foldlM_ok_of_fixed fun ref href => visitReference_of_isMet (hmet ref href)
  exact (visit_ok_iff hd).mpr (.inr ⟨hi, hfree, placed, rfl, hrefs⟩)

/-- The first positions of an ordered list are placed as they come. -/
theorem visitAll_range (hr : s.Resolves) (ho : s.IsOrdered) (hk : k ≤ s.decls.length) :
    s.visitAll (List.range k) [] = .ok (List.range k) := by
  induction k with
  | zero => rfl
  | succ k ih =>
    have hd : s.decls[k]? = some s.decls[k] := List.getElem?_eq_getElem hk
    have hvisit : s.visit (List.range s.decls.length) [] k (List.range k) =
        .ok (List.range k ++ [k]) :=
      visit_of_needs_placed hd (hr _ (List.getElem_mem hk)) List.not_mem_range_self
        (List.mem_range.mpr hk) fun j hj => List.mem_range.mpr (ho k j hj)
    rw [List.range_succ, visitAll, List.foldlM_append]
    refine bind_ok_iff.mpr ⟨List.range k, ih (Nat.le_of_succ_le hk), ?_⟩
    rw [List.foldlM_cons, hvisit]
    rfl

/-- A run leaves exactly those positions alone that are in order. -/
theorem positions_eq_range_iff :
    s.positions = .ok (List.range s.decls.length) ↔ s.Resolves ∧ s.IsOrdered := by
  constructor
  · intro h
    refine ⟨(positions_ok_iff.mp ⟨_, h⟩).1, fun i j hn => ?_⟩
    obtain ⟨before, after, hsplit⟩ := List.append_of_mem (List.mem_range.mpr hn.lt_left)
    have hj : j ∈ before := (positions_ok h).1.ordered before i after hsplit j hn
    have hincreasing : (before ++ i :: after).Pairwise (· < ·) := hsplit ▸ List.pairwise_lt_range
    exact (List.pairwise_append.mp hincreasing).2.2 j hj i List.mem_cons_self
  · rintro ⟨hr, ho⟩
    exact visitAll_range hr ho (Nat.le_refl _)

/-- All positions in order pick all elements. -/
theorem filterMap_range_getElem? {α : Type} (xs : List α) :
    (List.range xs.length).filterMap (xs[·]?) = xs := by
  apply List.map_injective_iff.mpr fun _ _ => Option.some.inj
  rw [map_some_filterMap_getElem? fun i hi => List.mem_range.mp hi]
  exact List.ext_getElem (by simp) (by simp)

theorem sort_of_isOrdered (hr : s.Resolves) (ho : s.IsOrdered) : s.sort = .ok s.decls := by
  rw [sort, positions_eq_range_iff.mpr ⟨hr, ho⟩]
  exact congrArg Except.ok (filterMap_range_getElem? s.decls)

/-! ## Sorted declarations -/

theorem perm_of_sort (h : s.sort = .ok sorted) : sorted.Perm s.decls := by
  obtain ⟨order, horder, rfl⟩ := map_ok_iff.mp h
  have hperm := (positions_ok horder).2.filterMap (s.decls[·]?)
  rwa [filterMap_range_getElem?] at hperm

/-- The order in which declarations were placed tells from where each of them comes. -/
theorem getElem?_of_sorted (h : sorted.map some = order.map (s.decls[·]?))
    (hd : sorted[i]? = some d) : ∃ k, order[i]? = some k ∧ s.decls[k]? = some d := by
  have hi := congrArg (·[i]?) h
  simp only [List.getElem?_map, hd, Option.map_some] at hi
  exact Option.map_eq_some_iff.mp hi.symm

theorem idxOf_of_getElem? (hnodup : order.Nodup) (h : order[i]? = some k) : order.idxOf k = i := by
  obtain ⟨hi, rfl⟩ := List.getElem?_eq_some_iff.mp h
  exact hnodup.idxOf_getElem i hi

/-- Under distinct names, what a sorted declaration needs is what it needed before. -/
theorem needs_of_sorted (hnames : (s.decls.map (·.name)).Nodup)
    (h : sorted.map some = order.map (s.decls[·]?))
    (hn : ({ s with decls := sorted } : TypeOrder).Needs i j) :
    ∃ a b, order[i]? = some a ∧ order[j]? = some b ∧ s.Needs a b := by
  obtain ⟨d, hd, ref, href, t, ht, hlibrary, ⟨e, he, hname⟩, -⟩ := hn
  obtain ⟨a, ha, hda⟩ := getElem?_of_sorted h hd
  obtain ⟨b, hb, heb⟩ := getElem?_of_sorted h he
  refine ⟨a, b, ha, hb, d, hda, ref, href, t, ht, hlibrary, ⟨e, heb, hname⟩, ?_⟩
  intro k e' hk he' hname'
  exact Nat.ne_of_lt hk (eq_of_name_eq hnames heb he' (hname.trans hname'.symm))

theorem resolves_of_sort (h : s.sort = .ok sorted) :
    ({ s with decls := sorted } : TypeOrder).Resolves := by
  obtain ⟨order, horder, -, -, hsorted⟩ := exists_order_of_sort h
  intro d hd
  obtain ⟨i, hi⟩ := List.getElem?_of_mem hd
  obtain ⟨a, -, hda⟩ := getElem?_of_sorted hsorted hi
  exact (positions_ok_iff.mp ⟨order, horder⟩).1 d (List.mem_of_getElem? hda)

theorem isOrdered_of_sort (hnames : (s.decls.map (·.name)).Nodup) (h : s.sort = .ok sorted) :
    ({ s with decls := sorted } : TypeOrder).IsOrdered := by
  obtain ⟨order, -, hset, -, hsorted⟩ := exists_order_of_sort h
  intro i j hn
  obtain ⟨a, b, ha, hb, hab⟩ := needs_of_sorted hnames hsorted hn
  have hlt := hset.idxOf_lt (List.mem_of_getElem? ha) hab
  rwa [idxOf_of_getElem? hset.nodup ha, idxOf_of_getElem? hset.nodup hb] at hlt

/-- Declarations that are in order are left as they are, and so are those of distinct names that
have been sorted. -/
theorem sort_eq_self (r : TypeRegistry) (library : String) (decls : List TypeDecl) :
    ((TypeOrder.new r library decls).Resolves → (TypeOrder.new r library decls).IsOrdered →
      (TypeOrder.new r library decls).sort = .ok decls) ∧
    ((decls.map (·.name)).Nodup → ∀ sorted, (TypeOrder.new r library decls).sort = .ok sorted →
      (TypeOrder.new r library sorted).sort = .ok sorted) := by
  refine ⟨sort_of_isOrdered (s := .new r library decls), fun hnames sorted h => ?_⟩
  have hresolves := resolves_of_sort h
  have hordered := isOrdered_of_sort hnames h
  exact sort_of_isOrdered hresolves hordered

/-- A record for each place of a track, each one after those that need it. -/
def trackTypes : List TypeDecl :=
  [.record "Track" [⟨"points", "Points"⟩], .array "Points" "geo:Point" "%Max%",
    .record "Point" [⟨"x", "float32"⟩], .constant "Max" "uint8" "8"]

def trackRegistry : TypeRegistry := (TypeRegistry.empty.register "geo" trackTypes).1

/-- The same in order. -/
def sortedTrackTypes : List TypeDecl :=
  [.record "Point" [⟨"x", "float32"⟩], .constant "Max" "uint8" "8",
    .array "Points" "geo:Point" "%Max%", .record "Track" [⟨"points", "Points"⟩]]

/-- Some in order, with one name twice: the array needs the second `Point`. -/
def repeatedTrackTypes : List TypeDecl :=
  [.record "Point" [], .constant "Max" "uint8" "8", .record "Point" [⟨"x", "float32"⟩],
    .array "Points" "geo:Point" "%Max%"]

theorem sort_eq_self_trackTypes :
    ((TypeOrder.new trackRegistry "geo" repeatedTrackTypes).Resolves ∧
      (TypeOrder.new trackRegistry "geo" repeatedTrackTypes).IsOrdered ∧
      (TypeOrder.new trackRegistry "geo" repeatedTrackTypes).sort = .ok repeatedTrackTypes) ∧
    (trackTypes.map (·.name)).Nodup ∧
    (TypeOrder.new trackRegistry "geo" trackTypes).sort = .ok sortedTrackTypes ∧
    (TypeOrder.new trackRegistry "geo" sortedTrackTypes).sort = .ok sortedTrackTypes := by
  have hordered : (TypeOrder.new trackRegistry "geo" repeatedTrackTypes).Resolves ∧
      (TypeOrder.new trackRegistry "geo" repeatedTrackTypes).IsOrdered :=
    positions_eq_range_iff.mp (by decide +kernel)
  have hnames : (trackTypes.map (·.name)).Nodup := by decide
  have hpositions : (TypeOrder.new trackRegistry "geo" trackTypes).positions = .ok [2, 3, 1, 0] := by
    decide +kernel
  have hsort : (TypeOrder.new trackRegistry "geo" trackTypes).sort = .ok sortedTrackTypes :=
    map_ok_iff.mpr ⟨_, hpositions, rfl⟩
  exact ⟨⟨hordered.1, hordered.2, (sort_eq_self _ _ _).1 hordered.1 hordered.2⟩, hnames, hsort,
    (sort_eq_self _ _ _).2 hnames _ hsort⟩

end Ecoa.TypeOrder
