import Mathlib.Data.Finset.Card
import Ecoa.Proofs.Binding.Listing

/-!
# Binding tables as sets

`BindingTable.run` carries out commands on a table and `Command.runOnSet` on a plain set of
bindings. `Represents` ties a table to a set: both listings hold exactly the bindings of the set,
without an empty group. A command keeps it and answers alike, so that every query on a table that
commands made from the empty one is a query on the set (`run_refines_set`).
-/

namespace Ecoa

variable {ι : Type}

/-- The peers under a key of their own and a key of the other side. -/
def Peers.under (peers : Peers ι) (own other : String) : List ι :=
  (((peers.find? (·.1 = own)).bind fun g => g.2.find? (·.1 = other)).map Prod.snd).getD []

theorem BindingGroups.mem_under_peers {groups : BindingGroups ι} {own other : String} {p : ι} :
    p ∈ groups.peers.under own other ↔ p ∈ ((groups.inner own).inner other).keys := by
  simp only [Peers.under, peers, OrderedMap.toList, List.find?_map, Function.comp_def,
    OrderedMap.inner, OrderedMap.get?]
  cases groups.entries.find? (·.1 = own) with
  | none => simp
  | some g =>
    simp only [Option.map_some, Option.bind_some, List.find?_map, Function.comp_def,
      Option.getD_some]
    cases g.2.entries.find? (·.1 = other) <;> simp

theorem Binding.eq_iff_byReceiver {b c : Binding ι} :
    c = b ↔ c.receiver = b.receiver ∧ c.receiverKey = b.receiverKey ∧
      c.senderKey = b.senderKey ∧ c.sender = b.sender := by
  rw [Binding.eq_iff]
  tauto

namespace BindingTable

theorem nodup_toList (t : BindingTable ι) : t.toList.Nodup :=
  t.bySender.nodup_toList.map fun e e' h => by
    obtain ⟨s, sk, rk, r⟩ := e
    obtain ⟨s', sk', rk', r'⟩ := e'
    cases h
    rfl

theorem length_toList (t : BindingTable ι) : t.toList.length = t.size := by
  rw [toList, List.length_map, BindingListing.length_toList, size]

variable [DecidableEq ι]

theorem mem_receiversOf?_iff {t : BindingTable ι} {s r : ι} {sk rk : String} :
    (∃ peers, t.receiversOf? s = some peers ∧ r ∈ peers.under sk rk) ↔
      t.bySender.contains s sk rk r = true := by
  rw [BindingListing.contains, OrderedMap.contains_eq_true, receiversOf?,
    ← OrderedMap.exists_mem_iff_inner (q := fun gs => r ∈ ((gs.inner sk).inner rk).keys) (by simp)]
  simp only [Option.map_eq_some_iff, OrderedMap.get?_eq_some_iff]
  constructor
  · rintro ⟨_, ⟨groups, hg, rfl⟩, h⟩
    exact ⟨groups, hg, BindingGroups.mem_under_peers.mp h⟩
  · rintro ⟨groups, hg, h⟩
    exact ⟨_, ⟨groups, hg, rfl⟩, BindingGroups.mem_under_peers.mpr h⟩

theorem mem_sendersOf?_iff {t : BindingTable ι} {s r : ι} {sk rk : String} :
    (∃ peers, t.sendersOf? r = some peers ∧ s ∈ peers.under rk sk) ↔
      t.byReceiver.contains r rk sk s = true :=
  mem_receiversOf?_iff (t := ⟨t.byReceiver, t.bySender⟩)

/-- Both listings say alike whether a binding would be new, and whether it could be taken away. -/
def SidesAgree (t : BindingTable ι) (b : Binding ι) : Prop :=
  (t.bySender.insert b.sender b.senderKey b.receiverKey b.receiver).2 =
      (t.byReceiver.insert b.receiver b.receiverKey b.senderKey b.sender).2 ∧
    (t.bySender.remove b.sender b.senderKey b.receiverKey b.receiver).2 =
      (t.byReceiver.remove b.receiver b.receiverKey b.senderKey b.sender).2

end BindingTable

section

variable [DecidableEq ι]

/-- A change to a table. -/
inductive Command (ι : Type) where
  | bind (b : Binding ι)
  | unbind (b : Binding ι)

namespace Command

/-- A change to a plain set of bindings, with its answer. -/
def onSet (s : Finset (Binding ι)) : Command ι → Finset (Binding ι) × Bool
  | .bind b => (insert b s, decide (b ∉ s))
  | .unbind b => (s.erase b, decide (b ∈ s))

def runOnSet (s : Finset (Binding ι)) : List (Command ι) → Finset (Binding ι) × List Bool
  | [] => (s, [])
  | c :: cs =>
    let (s, answer) := c.onSet s
    let (s, answers) := runOnSet s cs
    (s, answer :: answers)

end Command

namespace BindingTable

def command (t : BindingTable ι) : Command ι → BindingTable ι × Bool
  | .bind b => t.bind b
  | .unbind b => t.unbind b

/-- Carry out one command after the other, and collect the answers. -/
def run (t : BindingTable ι) : List (Command ι) → BindingTable ι × List Bool
  | [] => (t, [])
  | c :: cs =>
    let (t, answer) := t.command c
    let (t, answers) := run t cs
    (t, answer :: answers)

/-- The table holds the bindings of a set, in both listings and without an empty group. -/
structure Represents (t : BindingTable ι) (s : Finset (Binding ι)) : Prop where
  bySender : ∀ b, t.bySender.contains b.sender b.senderKey b.receiverKey b.receiver = true ↔ b ∈ s
  byReceiver :
    ∀ b, t.byReceiver.contains b.receiver b.receiverKey b.senderKey b.sender = true ↔ b ∈ s
  senders_filled : t.bySender.NoEmptyGroup
  receivers_filled : t.byReceiver.NoEmptyGroup

theorem represents_empty : (empty : BindingTable ι).Represents ∅ where
  bySender b := by simp [empty]
  byReceiver b := by simp [empty]
  senders_filled := BindingListing.noEmptyGroup_empty
  receivers_filled := BindingListing.noEmptyGroup_empty

namespace Represents

variable {t : BindingTable ι} {s : Finset (Binding ι)}

theorem bind (h : t.Represents s) (b : Binding ι) : (t.bind b).1.Represents (insert b s) where
  bySender c := by
    rw [Finset.mem_insert, or_comm, ← h.bySender c, Binding.eq_iff]
    exact BindingListing.contains_insert _
  byReceiver c := by
    rw [Finset.mem_insert, or_comm, ← h.byReceiver c, Binding.eq_iff_byReceiver]
    exact BindingListing.contains_insert _
  senders_filled := h.senders_filled.insert _ _ _ _
  receivers_filled := h.receivers_filled.insert _ _ _ _

theorem unbind (h : t.Represents s) (b : Binding ι) : (t.unbind b).1.Represents (s.erase b) where
  bySender c := by
    rw [Finset.mem_erase, and_comm, ← h.bySender c, ne_eq, Binding.eq_iff]
    exact BindingListing.contains_remove _
  byReceiver c := by
    rw [Finset.mem_erase, and_comm, ← h.byReceiver c, ne_eq, Binding.eq_iff_byReceiver]
    exact BindingListing.contains_remove _
  senders_filled := h.senders_filled.remove _ _ _ _
  receivers_filled := h.receivers_filled.remove _ _ _ _

theorem command (h : t.Represents s) (c : Command ι) :
    (t.command c).1.Represents (c.onSet s).1 ∧ (t.command c).2 = (c.onSet s).2 := by
  cases c with
  | bind b =>
    refine ⟨h.bind b, ?_⟩
    have answer : (!t.contains b) = decide (b ∉ s) := by
      rw [decide_not]
      exact congrArg (!·) (Bool.eq_iff_iff.mpr ((h.bySender b).trans decide_eq_true_iff.symm))
    exact answer
  | unbind b =>
    refine ⟨h.unbind b, ?_⟩
    have answer : t.contains b = decide (b ∈ s) :=
      Bool.eq_iff_iff.mpr ((h.bySender b).trans decide_eq_true_iff.symm)
    exact (BindingListing.remove_snd ..).trans answer

theorem run (h : t.Represents s) (cs : List (Command ι)) :
    (t.run cs).1.Represents (Command.runOnSet s cs).1 ∧
      (t.run cs).2 = (Command.runOnSet s cs).2 := by
  induction cs generalizing t s with
  | nil => exact ⟨h, rfl⟩
  | cons c cs ih =>
    obtain ⟨hstep, hanswer⟩ := h.command c
    obtain ⟨hrest, hanswers⟩ := ih hstep
    exact ⟨hrest, congrArg₂ List.cons hanswer hanswers⟩

theorem mem_toList (h : t.Represents s) (b : Binding ι) : b ∈ t.toList ↔ b ∈ s :=
  BindingTable.mem_toList.trans (h.bySender b)

theorem toFinset_toList (h : t.Represents s) : t.toList.toFinset = s := by
  ext b
  rw [List.mem_toFinset, h.mem_toList]

theorem size_eq (h : t.Represents s) : t.size = s.card := by
  rw [← h.toFinset_toList, List.toFinset_card_of_nodup t.nodup_toList, length_toList]

theorem isEmpty_iff (h : t.Represents s) : t.isEmpty = true ↔ s = ∅ := by
  rw [isEmpty, h.senders_filled.isEmpty_iff, ← h.toFinset_toList, List.toFinset_eq_empty_iff,
    toList, List.map_eq_nil_iff]

/-- The view of the receivers is exact. -/
theorem mem_receiversOf?_iff (h : t.Represents s) {x y : ι} {sk rk : String} :
    (∃ peers, t.receiversOf? x = some peers ∧ y ∈ peers.under sk rk) ↔ ⟨x, sk, y, rk⟩ ∈ s :=
  BindingTable.mem_receiversOf?_iff.trans (h.bySender ⟨x, sk, y, rk⟩)

theorem mem_sendersOf?_iff (h : t.Represents s) {x y : ι} {sk rk : String} :
    (∃ peers, t.sendersOf? y = some peers ∧ x ∈ peers.under rk sk) ↔ ⟨x, sk, y, rk⟩ ∈ s :=
  BindingTable.mem_sendersOf?_iff.trans (h.byReceiver ⟨x, sk, y, rk⟩)

theorem sidesAgree (h : t.Represents s) (b : Binding ι) : t.SidesAgree b := by
  have alike : t.bySender.contains b.sender b.senderKey b.receiverKey b.receiver =
      t.byReceiver.contains b.receiver b.receiverKey b.senderKey b.sender :=
    Bool.eq_iff_iff.mpr ((h.bySender b).trans (h.byReceiver b).symm)
  constructor
  · rw [BindingListing.insert_snd, BindingListing.insert_snd, alike]
  · rw [BindingListing.remove_snd, BindingListing.remove_snd, alike]

end Represents

/-- Whatever is bound and unbound from the empty table on, the answers and all queries are those of
a plain set of bindings; the two listings mirror each other, have no empty group and never
disagree on the next command. -/
theorem run_refines_set (cs : List (Command ι)) :
    let t := (empty.run cs).1
    let s := (Command.runOnSet ∅ cs).1
    (empty.run cs).2 = (Command.runOnSet ∅ cs).2 ∧
      (∀ b, t.contains b = true ↔ b ∈ s) ∧
      (∀ b, b ∈ t.toList ↔ b ∈ s) ∧ t.toList.Nodup ∧
      t.size = s.card ∧ (t.isEmpty = true ↔ s = ∅) ∧
      (∀ x sk y rk, (∃ peers, t.receiversOf? x = some peers ∧ y ∈ peers.under sk rk) ↔
        ⟨x, sk, y, rk⟩ ∈ s) ∧
      (∀ x sk y rk, (∃ peers, t.receiversOf? x = some peers ∧ y ∈ peers.under sk rk) ↔
        ∃ peers, t.sendersOf? y = some peers ∧ x ∈ peers.under rk sk) ∧
      t.bySender.NoEmptyGroup ∧ t.byReceiver.NoEmptyGroup ∧ ∀ b, t.SidesAgree b := by
  intro t s
  obtain ⟨h, answers⟩ : t.Represents s ∧ _ := represents_empty.run cs
  refine ⟨answers, h.bySender, h.mem_toList, t.nodup_toList, h.size_eq, h.isEmpty_iff, ?_, ?_,
    h.senders_filled, h.receivers_filled, h.sidesAgree⟩
  · intro x sk y rk
    exact h.mem_receiversOf?_iff
  · intro x sk y rk
    exact h.mem_receiversOf?_iff.trans h.mem_sendersOf?_iff.symm

end BindingTable

end

end Ecoa
