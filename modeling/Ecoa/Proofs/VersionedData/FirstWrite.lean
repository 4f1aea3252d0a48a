import Ecoa.VersionedData
import Mathlib.Logic.Basic
import Mathlib.Tactic.Tauto

/-!
# Which first writes a publication ends

A store is made by calls that declare writers, alone or with others, and publish through them. All
that is kept of the declarations are pairs: the writer of a call with each of the others. What is
published through a writer ends the first write of that writer and of those paired with it. Two
writers that are only declared with the same third are no pair, and one outlasts the other.
-/

namespace Ecoa

namespace VersionedData

variable {α : Type}

/-- A call that changes a store. -/
inductive Call (α : Type) where
  | declare (writer : String)
  | declareTogether (writer : String) (others : List String)
  | publish (writer : String) (handle : Access α)

namespace Call

/-- The writers that a call declares. -/
def declared : Call α → List String
  | declare writer => [writer]
  | declareTogether writer others => writer :: others
  | publish _ _ => []

/-- The call declares one of two writers together with the other. -/
def Pairs : Call α → String → String → Prop
  | declareTogether writer others, v, w => (v = writer ∧ w ∈ others) ∨ (w = writer ∧ v ∈ others)
  | _, _, _ => False

instance (x : Call α) (v w : String) : Decidable (x.Pairs v w) := by
  cases x <;> unfold Pairs <;> infer_instance

/-- The cells and the store after a call. A publication that fails changes nothing. -/
def run (s : Cells α × VersionedData) : Call α → Cells α × VersionedData
  | declare writer => (s.1, s.2.withWriter writer)
  | declareTogether writer others => (s.1, s.2.withSiblings writer others)
  | publish writer handle => (s.2.publish? s.1 writer handle).getD s

def runAll (s : Cells α × VersionedData) (calls : List (Call α)) : Cells α × VersionedData :=
  calls.foldl run s

end Call

/-- The writers paired with a writer. -/
def siblingsOf (d : VersionedData) (writer : String) : List String :=
  (d.siblings.get? writer).getD []

variable {d : VersionedData} {v w writer : String} {others : List String}

theorem mem_keys_withWriter :
    v ∈ (d.withWriter writer).firstWrite.keys ↔ v ∈ d.firstWrite.keys ∨ v = writer :=
  OrderedMap.mem_keys_insert

theorem mem_siblingsOf_addSibling {other : String} :
    w ∈ (d.addSibling writer other).siblingsOf v ↔
      w ∈ d.siblingsOf v ∨ (v = writer ∧ w = other) := by
  simp only [siblingsOf, addSibling, OrderedMap.alter, OrderedMap.get?_insert]
  by_cases hv : v = writer
  · subst hv
    rw [if_pos rfl, Option.getD_some]
    split
    · next hmem =>
      refine ⟨.inl, fun h => h.elim id ?_⟩
      rintro ⟨-, rfl⟩
      exact hmem
    · simp
  · simp [hv]

/-- One more of the writers that are declared together. -/
def joined (d : VersionedData) (writer other : String) : VersionedData :=
  ((d.withWriter other).addSibling writer other).addSibling other writer

theorem withSiblings_eq (d : VersionedData) (writer : String) (others : List String) :
    d.withSiblings writer others =
      others.foldl (fun d other => d.joined writer other) (d.withWriter writer) := rfl

theorem mem_siblingsOf_withSiblings : w ∈ (d.withSiblings writer others).siblingsOf v ↔
    w ∈ d.siblingsOf v ∨ (v = writer ∧ w ∈ others) ∨ (w = writer ∧ v ∈ others) := by
  have loop : ∀ d : VersionedData, w ∈ (others.foldl (fun d other => d.joined writer other)
      d).siblingsOf v ↔
      w ∈ d.siblingsOf v ∨ (v = writer ∧ w ∈ others) ∨ (w = writer ∧ v ∈ others) := by
    induction others with
    | nil => simp
    | cons other others ih =>
      intro d
      rw [List.foldl_cons, ih, joined, mem_siblingsOf_addSibling, mem_siblingsOf_addSibling]
      simp only [List.mem_cons]
      have hsame : w ∈ (d.withWriter other).siblingsOf v ↔ w ∈ d.siblingsOf v := Iff.rfl
      rw [hsame]
      tauto
  exact loop (d.withWriter writer)

theorem mem_keys_withSiblings : v ∈ (d.withSiblings writer others).firstWrite.keys ↔
    v ∈ d.firstWrite.keys ∨ v ∈ writer :: others := by
  have loop : ∀ d : VersionedData, v ∈ (others.foldl (fun d other => d.joined writer other)
      d).firstWrite.keys ↔ v ∈ d.firstWrite.keys ∨ v ∈ others := by
    induction others with
    | nil => simp
    | cons other others ih =>
      intro d
      have hone : v ∈ (d.joined writer other).firstWrite.keys ↔
          v ∈ d.firstWrite.keys ∨ v = other := mem_keys_withWriter
      rw [List.foldl_cons, ih, hone, List.mem_cons, or_assoc]
  rw [withSiblings_eq, loop, mem_keys_withWriter, List.mem_cons, or_assoc]

/-- Ending the first write of a writer ends that of its siblings, and of no others. -/
theorem isFirstWrite?_clearFirstWrite : (d.clearFirstWrite writer).isFirstWrite? w =
    if w ∈ writer :: d.siblingsOf writer then some false else d.isFirstWrite? w := by
  have loop : ∀ (writers : List String) (flags : OrderedMap String Bool),
      (writers.foldl (fun flags v => flags.insert v false) flags).get? w =
        if w ∈ writers then some false else flags.get? w := by
    intro writers
    induction writers with
    | nil => simp
    | cons v writers ih =>
      intro flags
      rw [List.foldl_cons, ih, OrderedMap.get?_insert]
      by_cases hrest : w ∈ writers
      · simp [hrest]
      · simp [hrest]
  exact loop (writer :: d.siblingsOf writer) d.firstWrite

theorem mem_keys_clearFirstWrite (hsiblings : ∀ v ∈ d.siblingsOf writer, v ∈ d.firstWrite.keys)
    (hwriter : writer ∈ d.firstWrite.keys) :
    v ∈ (d.clearFirstWrite writer).firstWrite.keys ↔ v ∈ d.firstWrite.keys := by
  have hflag : ∀ d : VersionedData, v ∈ d.firstWrite.keys ↔ d.isFirstWrite? v ≠ none := by
    intro d
    rw [isFirstWrite?, ne_eq, OrderedMap.get?_eq_none_iff, not_not]
  rw [hflag, isFirstWrite?_clearFirstWrite]
  split
  · next hmem =>
    refine iff_of_true nofun ?_
    rcases List.mem_cons.mp hmem with rfl | hmem
    · exact hwriter
    · exact hsiblings v hmem
  · rw [hflag]

theorem publish?_eq_some_iff {c : Cells α} {handle : Access α} {s : Cells α × VersionedData} :
    d.publish? c writer handle = some s ↔ writer ∈ d.firstWrite.keys ∧
      s = (match handle with
        | .owned value => c.set d.cell value
        | .shared _ => c, { d with version := d.version + 1 }.clearFirstWrite writer) := by
  unfold publish?
  rw [← OrderedMap.contains_eq_true]
  split
  · next h =>
    rw [Option.some_inj]
    exact eq_comm.trans (and_iff_right h).symm
  · next h => exact iff_of_false nofun fun hs => h hs.1

/-- What a store keeps of the calls that made it. -/
structure IsMadeBy (d : VersionedData) (calls : List (Call α)) : Prop where
  writers : ∀ v, v ∈ d.firstWrite.keys ↔ ∃ x ∈ calls, v ∈ x.declared
  siblings : ∀ v w, w ∈ d.siblingsOf v ↔ ∃ x ∈ calls, x.Pairs v w

theorem isMadeBy_new (c : Cells α) (initial : α) (controlled : Bool) :
    (new c initial controlled).2.IsMadeBy ([] : List (Call α)) where
  writers v := by simp [new]
  siblings v w := by simp [new, siblingsOf]

/-- A writer with a sibling is declared. -/
theorem IsMadeBy.mem_keys_of_sibling {calls : List (Call α)} (h : d.IsMadeBy calls)
    (hw : w ∈ d.siblingsOf v) : w ∈ d.firstWrite.keys := by
  obtain ⟨x, hx, hpairs⟩ := (h.siblings v w).mp hw
  refine (h.writers w).mpr ⟨x, hx, ?_⟩
  cases x with
  | declare _ => exact hpairs.elim
  | declareTogether writer others =>
    rcases hpairs with ⟨-, hmem⟩ | ⟨rfl, -⟩
    · exact List.mem_cons_of_mem _ hmem
    · exact List.mem_cons_self
  | publish _ _ => exact hpairs.elim

/-- Each call adds what it declares; publishing adds nothing. -/
theorem IsMadeBy.run {calls : List (Call α)} {s : Cells α × VersionedData}
    (h : s.2.IsMadeBy calls) (x : Call α) : (x.run s).2.IsMadeBy (calls ++ [x]) := by
  constructor
  case writers =>
    intro v
    simp only [List.mem_append, List.mem_singleton, or_and_right, exists_or, exists_eq_left,
      ← h.writers]
    cases x with
    | declare writer => exact mem_keys_withWriter.trans (or_congr_right List.mem_singleton.symm)
    | declareTogether writer others => exact mem_keys_withSiblings
    | publish writer handle =>
      simp only [Call.declared, List.not_mem_nil, or_false, Call.run]
      cases hp : s.2.publish? s.1 writer handle with
      | none => rfl
      | some s' =>
        obtain ⟨hwriter, rfl⟩ := publish?_eq_some_iff.mp hp
        exact mem_keys_clearFirstWrite (fun _ => h.mem_keys_of_sibling) hwriter
  case siblings =>
    intro v w
    simp only [List.mem_append, List.mem_singleton, or_and_right, exists_or, exists_eq_left,
      ← h.siblings]
    cases x with
    | declare writer => exact (or_iff_left id).symm
    | declareTogether writer others => exact mem_siblingsOf_withSiblings
    | publish writer handle =>
      simp only [Call.Pairs, or_false, Call.run]
      cases hp : s.2.publish? s.1 writer handle with
      | none => rfl
      | some s' =>
        obtain ⟨-, rfl⟩ := publish?_eq_some_iff.mp hp
        rfl

theorem IsMadeBy.runAll {before : List (Call α)} {s : Cells α × VersionedData}
    (h : s.2.IsMadeBy before) (calls : List (Call α)) :
    (Call.runAll s calls).2.IsMadeBy (before ++ calls) := by
  induction calls generalizing before s with
  | nil => rwa [List.append_nil]
  | cons x calls ih =>
    rw [List.append_cons]
    exact ih (h.run x)

/-- Publishing succeeds through the declared writers. It ends the first write of the writer and of
those that some call declares together with it, in whichever role, and leaves that of all others. -/
theorem publish?_runAll (c : Cells α) (initial : α) (controlled : Bool) (calls : List (Call α))
    (writer : String) (handle : Access α) :
    let s := Call.runAll (new c initial controlled) calls
    ((s.2.publish? s.1 writer handle).isSome ↔ ∃ x ∈ calls, writer ∈ x.declared) ∧
    ∀ s', s.2.publish? s.1 writer handle = some s' → ∀ w,
      s'.2.isFirstWrite? w =
        if w = writer ∨ ∃ x ∈ calls, x.Pairs writer w then some false
        else s.2.isFirstWrite? w := by
  intro s
  have h : s.2.IsMadeBy calls := (isMadeBy_new c initial controlled).runAll calls
  constructor
  · rw [← h.writers, Option.isSome_iff_exists]
    simp only [publish?_eq_some_iff, exists_and_left, exists_eq, and_true]
  · intro s' hs' w
    obtain ⟨-, rfl⟩ := publish?_eq_some_iff.mp hs'
    refine isFirstWrite?_clearFirstWrite.trans ?_
    refine if_congr ?_ rfl rfl
    rw [List.mem_cons, ← h.siblings]
    rfl

/-- A publication through the writer that was declared with two others ends the first writes of
all three. -/
theorem publish?_runAll_first : ∃ s' : Cells String × VersionedData,
    let s := Call.runAll (new .empty "" true) [.declareTogether "left" ["middle", "right"]]
    s.2.publish? s.1 "left" (.owned "x") = some s' ∧
      ∀ w ∈ ["left", "middle", "right"], s'.2.isFirstWrite? w = some false := by
  refine ⟨_, rfl, fun w hw => ?_⟩
  rw [(publish?_runAll .empty "" true [.declareTogether "left" ["middle", "right"]] "left"
    (.owned "x")).2 _ rfl w]
  rcases List.mem_cons.mp hw with rfl | hw
  · simp
  · simp [Call.Pairs, hw]

/-- A publication through one of the others leaves the first write of its neighbour. -/
theorem publish?_other : ∃ s' : Cells String × VersionedData,
    let s := Call.runAll (new .empty "" true) [.declareTogether "left" ["middle", "right"]]
    s.2.publish? s.1 "middle" (.owned "x") = some s' ∧
      s'.2.isFirstWrite? "left" = some false ∧ s'.2.isFirstWrite? "right" = some true :=
  ⟨_, rfl, by decide, by decide⟩

end VersionedData

end Ecoa
