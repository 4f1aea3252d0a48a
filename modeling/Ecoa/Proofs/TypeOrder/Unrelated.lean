import Ecoa.Proofs.TypeOrder.Demand

/-!
# Declarations that do not need each other

Two declarations neither of which needs the other are to stay as they are declared, but not all of
them do. A run goes through the declarations, and through what each of them needs in the order of
its references; the first one that leads to only one of the two places it before the other. So they
stay as they are declared unless one that is declared before them needs the second. When this one
needs the first as well, it is the order of references alone that turns them, and another order of
the declarations may keep them. When it does not, no order puts declarations after what they need
and keeps all those that do not need each other.
-/

namespace Ecoa.TypeOrder

open Relation (ReflTransGen TransGen)

/-- The position is the other one, or needs it, directly or through others. -/
abbrev LeadsTo (s : TypeOrder) (k i : Nat) : Prop := ReflTransGen s.Needs k i

/-- What the references of a declaration lead to, in their order. -/
def targetsOf (s : TypeOrder) (d : TypeDecl) (refs : List TypeReference) : List Nat :=
  refs.filterMap fun ref => (s.target d ref).toOption.join

/-- The positions that a position needs, in the order of its references. -/
def neededBy (s : TypeOrder) (k : Nat) : List Nat :=
  (s.decls[k]?.map fun d => s.targetsOf d d.references).getD []

/-- On the way through these positions, and through what is needed by one that leads to both, the
first that leads to one alone leads to `i` and not to `j`. -/
inductive LeadsFirst (s : TypeOrder) (i j : Nat) : List Nat → Prop
  | alone {k : Nat} {rest : List Nat} :
    s.LeadsTo k i → ¬ s.LeadsTo k j → LeadsFirst s i j (k :: rest)
  | within {k : Nat} {rest : List Nat} :
    s.LeadsTo k i → s.LeadsTo k j → LeadsFirst s i j (s.neededBy k) → LeadsFirst s i j (k :: rest)
  | later {k : Nat} {rest : List Nat} :
    ¬ s.LeadsTo k i → ¬ s.LeadsTo k j → LeadsFirst s i j rest → LeadsFirst s i j (k :: rest)

variable {s : TypeOrder} {free path placed placed' order ks : List Nat} {i j k : Nat} {d : TypeDecl}

/-! ## Needs in the order of references -/

theorem not_leadsTo (hne : i ≠ j) (hn : ¬ TransGen s.Needs i j) : ¬ s.LeadsTo i j := fun hlead =>
  (Relation.reflTransGen_iff_eq_or_transGen.mp hlead).elim (fun heq => hne heq.symm) hn

theorem neededBy_eq (hd : s.decls[k]? = some d) : s.neededBy k = s.targetsOf d d.references := by
  rw [neededBy, hd, Option.map_some, Option.getD_some]

theorem mem_neededBy : j ∈ s.neededBy k ↔ s.Needs k j := by
  cases hd : s.decls[k]? with
  | none =>
    rw [neededBy, hd]
    refine iff_of_false List.not_mem_nil ?_
    rintro ⟨e, he, -⟩
    cases hd.symm.trans he
  | some d =>
    rw [neededBy_eq hd, targetsOf, needs_iff_target hd, List.mem_filterMap]
    refine exists_congr fun ref => and_congr_right fun _ => ?_
    cases s.target d ref with
    | error e => simp [Except.toOption]
    | ok x => simp [Except.toOption]

theorem lt_of_mem_neededBy (h : j ∈ s.neededBy k) : j < s.decls.length := by
  obtain ⟨d, -, ref, -, t, -, -, ⟨e, he, -⟩, -⟩ := mem_neededBy.mp h
  exact (List.getElem?_eq_some_iff.mp he).1

/-- Going through references is visiting the positions to which they lead. -/
theorem visitEach_targetsOf {refs : List TypeReference}
    (h : refs.foldlM (s.visitReference free path d) placed = .ok placed') :
    s.visitEach free path (s.targetsOf d refs) placed = .ok placed' := by
  induction refs generalizing placed with
  | nil => exact h
  | cons ref refs ih =>
    rw [List.foldlM_cons, bind_ok_iff] at h
    obtain ⟨now, hstep, hrest⟩ := h
    rcases visitReference_ok_iff.mp hstep with ⟨j, htarget, hvisit⟩ | ⟨htarget, rfl⟩
    · have hcons : s.targetsOf d (ref :: refs) = j :: s.targetsOf d refs := by
        simp [targetsOf, htarget, Except.toOption]
      rw [hcons, visitEach_cons_ok_iff]
      exact ⟨now, hvisit, ih hrest⟩
    · have hskip : s.targetsOf d (ref :: refs) = s.targetsOf d refs := by
        simp [targetsOf, htarget, Except.toOption]
      rw [hskip]
      exact ih hrest

/-! ## Which of two is placed first -/

/-- A settled list has all to which its positions lead. -/
theorem Settled.mem_of_leadsTo (h : s.Settled placed) (hk : k ∈ placed) (hlead : s.LeadsTo k i) :
    i ∈ placed := by
  induction hlead with
  | refl => exact hk
  | tail _ hn ih =>
    obtain ⟨before, after, rfl⟩ := List.append_of_mem ih
    exact List.mem_append_left _ (h.ordered before _ after rfl _ hn)

/-- Visits place the one first to which they first lead. -/
theorem LeadsFirst.exists_split (h : s.LeadsFirst i j ks) (hfree : free.Nodup)
    (hks : ∀ k ∈ ks, k < s.decls.length) (hs : s.Settled placed) (hi : i ∉ placed)
    (hj : j ∉ placed) (hvisits : s.visitEach free path ks placed = .ok placed') :
    ∃ before after, placed' = before ++ i :: after ∧ j ∉ before := by
  induction h generalizing free path placed placed' with
  | @alone k rest hki hkj =>
    obtain ⟨hk, hrest⟩ := List.forall_mem_cons.mp hks
    obtain ⟨now, hvisit, hvisits⟩ := visitEach_cons_ok_iff.mp hvisits
    obtain ⟨hnow, hmem, -⟩ := visit_ok hfree hk hs hvisit
    obtain ⟨-, ⟨new, rfl, -⟩, -⟩ := visitEach_ok hfree hrest hnow hvisits
    have hfresh : j ∉ now := fun hjnow => (visit_reaches hk hvisit j hjnow).elim hj hkj
    obtain ⟨before, after, rfl⟩ := List.append_of_mem (hnow.mem_of_leadsTo hmem hki)
    exact ⟨before, after ++ new, by simp, fun hbefore => hfresh (List.mem_append_left _ hbefore)⟩
  | @within k rest hki hkj _ ih =>
    obtain ⟨hk, hrest⟩ := List.forall_mem_cons.mp hks
    obtain ⟨now, hvisit, hvisits⟩ := visitEach_cons_ok_iff.mp hvisits
    obtain ⟨hnow, -, -⟩ := visit_ok hfree hk hs hvisit
    obtain ⟨-, ⟨new, rfl, -⟩, -⟩ := visitEach_ok hfree hrest hnow hvisits
    have hd : s.decls[k]? = some s.decls[k] := List.getElem?_eq_getElem hk
    -- a position that is placed has brought both of them along
    have hnew : k ∉ placed := fun hplaced => hi (hs.mem_of_leadsTo hplaced hki)
    obtain ⟨hplaced, -⟩ | ⟨-, hkfree, inner, rfl, hrefs⟩ := (visit_ok_iff hd).mp hvisit
    · exact absurd hplaced hnew
    · have hneeds : s.visitEach (free.erase k) (path ++ [k]) (s.neededBy k) placed = .ok inner := by
        rw [neededBy_eq hd]
        exact visitEach_targetsOf hrefs
      obtain ⟨before, after, rfl, hbefore⟩ :=
        ih (hfree.erase k) (fun _ => lt_of_mem_neededBy) hs hi hj hneeds
      exact ⟨before, after ++ [k] ++ new, by simp, hbefore⟩
  | @later k rest hki hkj _ ih =>
    obtain ⟨hk, hrest⟩ := List.forall_mem_cons.mp hks
    obtain ⟨now, hvisit, hvisits⟩ := visitEach_cons_ok_iff.mp hvisits
    obtain ⟨hnow, -, -⟩ := visit_ok hfree hk hs hvisit
    have hinow : i ∉ now := fun hmem => (visit_reaches hk hvisit i hmem).elim hi hki
    have hjnow : j ∉ now := fun hmem => (visit_reaches hk hvisit j hmem).elim hj hkj
    exact ih hfree hrest hnow hinow hjnow hvisits

/-- Of two positions that do not need each other, one is the first to be led to. -/
theorem Settled.leadsFirst_or (h : s.Settled order) (hall : ∀ k < s.decls.length, k ∈ order)
    (hij : ¬ s.LeadsTo i j) (hji : ¬ s.LeadsTo j i) {bound : Nat}
    (hbound : ∀ k ∈ ks, order.idxOf k < bound) (hks : ∃ k ∈ ks, s.LeadsTo k i ∨ s.LeadsTo k j) :
    s.LeadsFirst i j ks ∨ s.LeadsFirst j i ks := by
  -- what a position needs stands before it, which bounds the way inwards
  induction bound generalizing ks with
  | zero =>
    obtain ⟨k, hk, -⟩ := hks
    exact absurd (hbound k hk) (Nat.not_lt_zero _)
  | succ bound inward =>
    induction ks with
    | nil =>
      obtain ⟨k, hk, -⟩ := hks
      cases hk
    | cons k rest onward =>
      obtain ⟨hk, hrest⟩ := List.forall_mem_cons.mp hbound
      by_cases hki : s.LeadsTo k i
      · by_cases hkj : s.LeadsTo k j
        · have hinner : ∃ m ∈ s.neededBy k, s.LeadsTo m i ∨ s.LeadsTo m j := by
            rcases ReflTransGen.cases_head hki with rfl | ⟨m, hneeds, hlead⟩
            · exact absurd hkj hij
            · exact ⟨m, mem_neededBy.mpr hneeds, .inl hlead⟩
          have hlower : ∀ m ∈ s.neededBy k, order.idxOf m < bound := by
            intro m hm
            have hneeds := mem_neededBy.mp hm
            have := h.idxOf_lt (hall k hneeds.lt_left) hneeds
            omega
          exact (inward hlower hinner).imp (.within hki hkj) (.within hkj hki)
        · exact .inl (.alone hki hkj)
      · by_cases hkj : s.LeadsTo k j
        · exact .inr (.alone hkj hki)
        · have hlater : ∃ m ∈ rest, s.LeadsTo m i ∨ s.LeadsTo m j := by
            obtain ⟨m, hm, hlead⟩ := hks
            rcases List.mem_cons.mp hm with rfl | hm
            · exact absurd hlead (not_or.mpr ⟨hki, hkj⟩)
            · exact ⟨m, hm, hlead⟩
          exact (onward hrest hlater).imp (.later hki hkj) (.later hkj hki)

/-- A position is the first to be led to when nothing before it leads to the other. -/
theorem leadsFirst_append {before after : List Nat} (hij : ¬ s.LeadsTo i j)
    (h : ∀ k ∈ before, ¬ s.LeadsTo k j) : s.LeadsFirst i j (before ++ i :: after) := by
  induction before with
  | nil => exact .alone .refl hij
  | cons k before ih =>
    obtain ⟨hk, hrest⟩ := List.forall_mem_cons.mp h
    by_cases hki : s.LeadsTo k i
    · exact .alone hki hk
    · exact .later hki hk (ih hrest)

theorem leadsFirst_range {n : Nat} (hi : i < n) (hij : ¬ s.LeadsTo i j)
    (h : ∀ k < i, ¬ s.LeadsTo k j) : s.LeadsFirst i j (List.range n) := by
  obtain ⟨rest, rfl⟩ := Nat.exists_eq_add_of_le (Nat.succ_le_of_lt hi)
  rw [List.range_add, List.range_succ, List.append_assoc]
  exact leadsFirst_append hij fun k hk => h k (List.mem_range.mp hk)

/-! ## A whole run -/

/-- Of two positions that do not need each other, a run places the one first to which it first
leads. -/
theorem LeadsFirst.idxOf_lt (h : s.LeadsFirst i j (List.range s.decls.length))
    (hij : ¬ s.LeadsTo i j) (horder : s.positions = .ok order) :
    order.idxOf i < order.idxOf j := by
  obtain ⟨before, after, rfl, hbefore⟩ := h.exists_split List.nodup_range
    (fun k hk => List.mem_range.mp hk) s.settled_nil List.not_mem_nil List.not_mem_nil horder
  have hnodup := (positions_ok horder).1.nodup
  have hi : i ∉ before := fun hmem =>
    (List.nodup_append.mp hnodup).2.2 i hmem i List.mem_cons_self rfl
  have hne : i ≠ j := fun heq => hij (heq ▸ .refl)
  rw [List.idxOf_append_of_notMem hi, List.idxOf_append_of_notMem hbefore, List.idxOf_cons_self,
    List.idxOf_cons_ne _ hne]
  omega

theorem idxOf_lt_iff_leadsFirst (horder : s.positions = .ok order) (hi : i < s.decls.length)
    (hij : ¬ s.LeadsTo i j) (hji : ¬ s.LeadsTo j i) :
    order.idxOf i < order.idxOf j ↔ s.LeadsFirst i j (List.range s.decls.length) := by
  refine ⟨fun hlt => ?_, fun h => h.idxOf_lt hij horder⟩
  obtain ⟨hset, hperm⟩ := positions_ok horder
  have hall : ∀ k < s.decls.length, k ∈ order := fun k hk =>
    hperm.mem_iff.mpr (List.mem_range.mpr hk)
  have hbound : ∀ k ∈ List.range s.decls.length, order.idxOf k < order.length := fun k hk =>
    List.idxOf_lt_length_of_mem (hall k (List.mem_range.mp hk))
  refine (hset.leadsFirst_or hall hij hji hbound ⟨i, List.mem_range.mpr hi, .inl .refl⟩).resolve_right
    fun hreverse => ?_
  have := hreverse.idxOf_lt hji horder
  omega

/-- No order can put every declaration after what it needs and keep all those as they are declared
that do not need each other: not where one needs a third, and one that is declared between them
neither needs any of the two nor is needed by any. -/
theorem Settled.exists_turned (h : s.Settled order) (hall : ∀ k < s.decls.length, k ∈ order)
    (hki : k < i) (hij : i < j) (hneeds : TransGen s.Needs k j) (hk : ¬ s.LeadsTo k i)
    (hk' : ¬ s.LeadsTo i k) (hj : ¬ s.LeadsTo i j) (hj' : ¬ s.LeadsTo j i) :
    ∃ a b, a < b ∧ ¬ s.LeadsTo a b ∧ ¬ s.LeadsTo b a ∧ ¬ order.idxOf a < order.idxOf b := by
  have hfirst : order.idxOf j < order.idxOf k := h.idxOf_lt_of_transGen hall hneeds
  rcases Nat.lt_or_ge (order.idxOf k) (order.idxOf i) with hlt | hge
  · exact ⟨i, j, hij, hj, hj', by omega⟩
  · exact ⟨k, i, hki, hk, hk', by omega⟩

/-- Of two sorted declarations that do not need each other, the one stands first to which the
declarations, as they are declared, and within one that leads to both its references first lead.
They stand as they are declared when none that is declared before them needs the second. -/
theorem sort_ok_unrelated {r : TypeRegistry} {library : String} {decls sorted : List TypeDecl}
    (h : (TypeOrder.new r library decls).sort = .ok sorted) :
    let s := TypeOrder.new r library decls
    ∃ order, s.positions = .ok order ∧ order.Perm (List.range decls.length) ∧
      sorted.map some = order.map (decls[·]?) ∧
      ∀ i j, i < decls.length → j < decls.length → i ≠ j →
        ¬ TransGen s.Needs i j → ¬ TransGen s.Needs j i →
        (order.idxOf i < order.idxOf j ↔ s.LeadsFirst i j (List.range decls.length)) ∧
        (i < j → (∀ k < i, ¬ TransGen s.Needs k j) → order.idxOf i < order.idxOf j) := by
  intro s
  obtain ⟨order, horder, -, hperm, hsorted⟩ := exists_order_of_sort h
  refine ⟨order, horder, hperm, hsorted, fun i j hi hj hne hij hji => ?_⟩
  have hij' : ¬ s.LeadsTo i j := not_leadsTo hne hij
  have hji' : ¬ s.LeadsTo j i := not_leadsTo hne.symm hji
  refine ⟨idxOf_lt_iff_leadsFirst horder hi hij' hji', fun hlt hearlier => ?_⟩
  refine (leadsFirst_range hi hij' fun k hk => ?_).idxOf_lt hij' horder
  exact not_leadsTo (by omega) (hearlier k hk)

/-- A record whose references name the later declared of two others first, and one apart. -/
def pairTypes : List TypeDecl :=
  [.record "Pair" [⟨"second", "Second"⟩, ⟨"first", "First"⟩], .record "First" [⟨"x", "int32"⟩],
    .record "Second" [⟨"y", "int32"⟩], .record "Status" [⟨"code", "uint8"⟩]]

def pairRegistry : TypeRegistry := (TypeRegistry.empty.register "geo" pairTypes).1

def pairOrder : TypeOrder := .new pairRegistry "geo" pairTypes

def sortedPairTypes : List TypeDecl :=
  [.record "Second" [⟨"y", "int32"⟩], .record "First" [⟨"x", "int32"⟩],
    .record "Pair" [⟨"second", "Second"⟩, ⟨"first", "First"⟩], .record "Status" [⟨"code", "uint8"⟩]]

theorem positions_pairOrder : pairOrder.positions = .ok [2, 1, 0, 3] := by decide +kernel

theorem sort_pairOrder : pairOrder.sort = .ok sortedPairTypes :=
  map_ok_iff.mpr ⟨_, positions_pairOrder, rfl⟩

theorem neededBy_pairOrder : pairOrder.neededBy 0 = [2, 1] ∧ pairOrder.neededBy 1 = [] ∧
    pairOrder.neededBy 2 = [] := by decide +kernel

theorem not_transGen_of_neededBy (h : s.neededBy i = []) : ¬ TransGen s.Needs i j := by
  intro hlead
  obtain ⟨k, hneeds, -⟩ := Relation.TransGen.head'_iff.mp hlead
  exact List.not_mem_nil (h ▸ mem_neededBy.mpr hneeds)

theorem unrelated_pairOrder : ¬ TransGen pairOrder.Needs 1 2 ∧ ¬ TransGen pairOrder.Needs 2 1 :=
  ⟨not_transGen_of_neededBy neededBy_pairOrder.2.1,
    not_transGen_of_neededBy neededBy_pairOrder.2.2⟩

/-- `Pair` leads to `Second` first, and nothing that is declared before `First` needs `Status`. -/
theorem sort_ok_unrelated_pairTypes :
    (TypeOrder.new pairRegistry "geo" pairTypes).sort = .ok sortedPairTypes ∧
      ¬ TransGen pairOrder.Needs 1 2 ∧ ¬ TransGen pairOrder.Needs 2 1 ∧
      pairOrder.LeadsFirst 2 1 (List.range 4) ∧ (∀ k < 1, ¬ TransGen pairOrder.Needs k 3) ∧
      ∃ order, pairOrder.positions = .ok order ∧ order.idxOf 2 < order.idxOf 1 ∧
        order.idxOf 1 < order.idxOf 3 := by
  obtain ⟨hpair, hfirst, hsecond⟩ := neededBy_pairOrder
  obtain ⟨hforward, hback⟩ := unrelated_pairOrder
  have hneeds : ∀ k, pairOrder.Needs 0 k ↔ k = 2 ∨ k = 1 := fun k => by
    rw [← mem_neededBy, hpair]
    simp
  have hlead : pairOrder.LeadsFirst 2 1 (List.range 4) := by
    refine .within (.single ((hneeds 2).mpr (.inl rfl))) (.single ((hneeds 1).mpr (.inr rfl))) ?_
    rw [hpair]
    exact .alone .refl (not_leadsTo (by decide) hback)
  have hstatus : ∀ k < 1, ¬ TransGen pairOrder.Needs k 3 := by
    intro k hk hlead
    obtain rfl : k = 0 := by omega
    obtain ⟨c, hc, hlead⟩ := Relation.TransGen.head'_iff.mp hlead
    rcases (hneeds c).mp hc with rfl | rfl
    · exact not_leadsTo (by decide) (not_transGen_of_neededBy hsecond) hlead
    · exact not_leadsTo (by decide) (not_transGen_of_neededBy hfirst) hlead
  obtain ⟨order, horder, -, -, hunrelated⟩ := sort_ok_unrelated sort_pairOrder
  refine ⟨sort_pairOrder, hforward, hback, hlead, hstatus, order, horder, ?_, ?_⟩
  · exact (hunrelated 2 1 (by decide) (by decide) (by decide) hback hforward).1.mpr hlead
  · exact (hunrelated 1 3 (by decide) (by decide) (by decide) (not_transGen_of_neededBy hfirst)
      (not_transGen_of_neededBy (by decide +kernel))).2 (by decide) hstatus

/-- `First` and `Second` do not need each other, and `Second` is sorted before `First`, because
`Pair` refers to it first. -/
theorem sort_turns_pairTypes :
    (pairTypes.map (·.name)).Nodup ∧
      pairTypes.map (·.name) = ["Pair", "First", "Second", "Status"] ∧
      ¬ TransGen (TypeOrder.new pairRegistry "geo" pairTypes).Needs 1 2 ∧
      ¬ TransGen (TypeOrder.new pairRegistry "geo" pairTypes).Needs 2 1 ∧
      ∃ sorted, (TypeOrder.new pairRegistry "geo" pairTypes).sort = .ok sorted ∧
        sorted.map (·.name) = ["Second", "First", "Pair", "Status"] :=
  ⟨by decide, rfl, unrelated_pairOrder.1, unrelated_pairOrder.2, _, sort_pairOrder, rfl⟩

end Ecoa.TypeOrder
