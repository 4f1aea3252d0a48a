import Mathlib.Data.Finset.Union
import Ecoa.Proofs.Binding.Refinement
import Ecoa.Proofs.Linking.Events
import Ecoa.Proofs.Linking.Relay

/-!
# What relaying makes of the set of event bindings

Relaying takes its steps one after the other, on the table that it has read them from. On the set of
bindings that the table represents, they come to one change: the inbound bindings go, and for each
of them there are those that its dynamic trigger sends out. What is counted is the size of the
change.
-/

namespace Ecoa

/-- What two sets add to a third, one after the other. -/
theorem card_union_sdiff_eq_add {α : Type} [DecidableEq α] (first second s : Finset α) :
    ((first ∪ second) \ s).card = (first \ s).card + (second \ (s ∪ first)).card := by
  have hdisjoint : Disjoint (first \ s) (second \ (s ∪ first)) := by
    rw [Finset.disjoint_left]
    simp only [Finset.mem_sdiff, Finset.mem_union]
    tauto
  rw [← Finset.card_union_of_disjoint hdisjoint]
  congr 1
  ext a
  simp only [Finset.mem_sdiff, Finset.mem_union]
  tauto

namespace BindingTable

variable {ι : Type} [DecidableEq ι] {t : BindingTable ι} {s : Finset (Binding ι)}

/-- Binding a list adds its bindings to the set, and counts those that are new. -/
theorem Represents.bindAll (h : t.Represents s) (bs : List (Binding ι)) :
    (t.bindAll bs).1.Represents (s ∪ bs.toFinset) ∧
      (t.bindAll bs).2 = (bs.toFinset \ s).card := by
  have loop : ∀ (s : Finset (Binding ι)) (state : BindingTable ι × Nat), state.1.Represents s →
      let final := bs.foldl (fun s b =>
        ((s.1.bind b).1, if (s.1.bind b).2 then s.2 + 1 else s.2)) state
      final.1.Represents (s ∪ bs.toFinset) ∧ final.2 = state.2 + (bs.toFinset \ s).card := by
    induction bs with
    | nil => simp
    | cons b bs ih =>
      intro s state h
      have hanswer : (state.1.bind b).2 = decide (b ∉ s) := (h.command (.bind b)).2
      obtain ⟨hrepresents, hcount⟩ := ih (insert b s)
        ((state.1.bind b).1, if (state.1.bind b).2 then state.2 + 1 else state.2) (h.bind b)
      rw [List.foldl_cons, List.toFinset_cons]
      refine ⟨?_, hcount.trans ?_⟩
      · rwa [Finset.insert_union, ← Finset.union_insert] at hrepresents
      · rw [Finset.insert_eq, Finset.insert_eq, card_union_sdiff_eq_add, Finset.union_comm {b} s,
          hanswer]
        by_cases hb : b ∈ s
        · simp [hb]
        · have hone : ({b} \ s) = {b} :=
            Finset.sdiff_eq_self_of_disjoint (Finset.disjoint_singleton_left.mpr hb)
          simp [hb, hone, Nat.add_assoc]
  obtain ⟨hrepresents, hcount⟩ := loop s (t, 0) h
  exact ⟨hrepresents, hcount.trans (Nat.zero_add _)⟩

/-- The own keys of a sender, in the order in which it has been bound under them. -/
def senderKeys (t : BindingTable ι) (sender : ι) : List String :=
  ((t.receiversOf? sender).getD []).map Prod.fst

theorem senderKeys_eq (t : BindingTable ι) (sender : ι) :
    t.senderKeys sender = (t.bySender.owners.inner sender).keys := by
  rw [senderKeys, receiversOf?, OrderedMap.inner]
  cases t.bySender.owners.get? sender with
  | none => rfl
  | some groups =>
    simp [BindingGroups.peers, OrderedMap.keys, OrderedMap.toList, Function.comp_def]

/-- The first binding of a sender under a key that is looked for tells the first such key. -/
theorem map_find?_toList (h : t.bySender.NoEmptyGroup) (sender : ι) (q : String → Bool) :
    ((t.toList.filter (·.sender = sender)).find? fun b => q b.senderKey).map (·.senderKey) =
      (t.senderKeys sender).find? q := by
  rw [senderKeys_eq, ← h.map_find?_toList, toList, List.filter_map, List.find?_map, Option.map_map]
  rfl

end BindingTable

namespace Relay

open BindingTable

variable {s : Finset (Binding EntityId)}

/-- One step puts the new bindings in the place of one that is there. -/
theorem represents_redirect {state : BindingTable EntityId × Counts} (h : state.1.Represents s)
    (step : Binding EntityId × List (Binding EntityId)) (hmem : step.1 ∈ s) :
    (redirect state step).1.Represents ((s ∪ step.2.toFinset).erase step.1) ∧
      (redirect state step).2 =
        ⟨state.2.redirected + 1, state.2.added + (step.2.toFinset \ s).card⟩ := by
  obtain ⟨hbound, hadded⟩ := h.bindAll step.2
  have hremoved : ((state.1.bindAll step.2).1.unbind step.1).2 = true :=
    (hbound.command (.unbind step.1)).2.trans
      (decide_eq_true (Finset.mem_union_left _ hmem))
  unfold redirect
  dsimp only
  rw [hremoved, hadded]
  exact ⟨hbound.unbind step.1, rfl⟩

/-- Steps that take away different bindings, of which none is put in the place of another, take all
of them away and count them and what is new. -/
theorem represents_foldl_redirect {old : List (Binding EntityId)}
    {new : Binding EntityId → List (Binding EntityId)} (hnodup : old.Nodup)
    (hapart : ∀ b ∈ old, b ∉ old.flatMap new) (state : BindingTable EntityId × Counts)
    (h : state.1.Represents s) (hmem : ∀ b ∈ old, b ∈ s) :
    ((old.map fun b => (b, new b)).foldl redirect state).1.Represents
        ((s ∪ (old.flatMap new).toFinset) \ old.toFinset) ∧
      ((old.map fun b => (b, new b)).foldl redirect state).2 =
        ⟨state.2.redirected + old.length,
          state.2.added + ((old.flatMap new).toFinset \ s).card⟩ := by
  induction old generalizing state s with
  | nil => simpa using h
  | cons b old ih =>
    simp only [List.nodup_cons, List.forall_mem_cons, List.flatMap_cons, List.mem_append, not_or]
      at hnodup hapart hmem
    obtain ⟨hstep, hcounts⟩ := represents_redirect h (b, new b) hmem.1
    have hrest : ∀ b' ∈ old, b' ∈ (s ∪ (new b).toFinset).erase b := by
      intro b' hb'
      rw [Finset.mem_erase, Finset.mem_union]
      exact ⟨fun heq => hnodup.1 (heq ▸ hb'), .inl (hmem.2 b' hb')⟩
    obtain ⟨hrepresents, hfinal⟩ := ih hnodup.2 (fun b' hb' => (hapart.2 b' hb').2) _ hstep
      hrest
    -- a later step neither puts `b` back nor finds it new
    have hb : b ∉ (old.flatMap new).toFinset := by
      rw [List.mem_toFinset]
      exact hapart.1.2
    have hset : ((s ∪ (new b).toFinset).erase b ∪ (old.flatMap new).toFinset) \ old.toFinset =
        (s ∪ ((new b).toFinset ∪ (old.flatMap new).toFinset)) \ insert b old.toFinset := by
      ext c
      simp only [Finset.mem_sdiff, Finset.mem_union, Finset.mem_erase, Finset.mem_insert]
      by_cases hc : c = b
      · simp [hc, hb]
      · tauto
    have hnew : (old.flatMap new).toFinset \ (s ∪ (new b).toFinset).erase b =
        (old.flatMap new).toFinset \ (s ∪ (new b).toFinset) := by
      rw [← Finset.sdiff_insert_of_notMem hb,
        Finset.insert_erase (Finset.mem_union_left _ hmem.1)]
    rw [hset] at hrepresents
    rw [List.map_cons, List.foldl_cons, List.flatMap_cons, List.toFinset_append,
      List.toFinset_cons, card_union_sdiff_eq_add, hfinal, hcounts, hnew]
    refine ⟨hrepresents, ?_⟩
    simp only [List.length_cons, Nat.add_assoc, Nat.add_comm 1]

/-- What a dynamic trigger sends out is bound under its first key with the operation `out`. -/
theorem outBindings_eq {m : Model} (h : m.events.bySender.NoEmptyGroup) (sender : EntityId) :
    outBindings m sender = m.events.toList.filter fun t => t.sender = sender ∧
      (m.events.senderKeys sender).find? (operation? · = some "out") = some t.senderKey := by
  rw [← BindingTable.map_find?_toList h]
  unfold outBindings
  dsimp only
  split
  · next first hfirst =>
    rw [hfirst, List.filter_filter]
    refine List.filter_congr fun t _ => ?_
    simp only [Option.map_some, Option.some.injEq, Bool.decide_and, Bool.and_comm, eq_comm]
  · next hnone =>
    rw [hnone, Option.map_none]
    simp

end Relay

namespace Model

open EventLinking Relay

variable (m : Model)

/-- The bindings that bring events of modules or code outside to the `in` operation of a dynamic
trigger. -/
def inbound : Finset (Binding EntityId) :=
  m.events.toList.toFinset.filter fun b =>
    (b.sender.kind = .eventSend ∨ b.sender.kind = .external) ∧
      b.receiver.kind = .dynamicTriggerReceived ∧ operation? b.receiverKey = some "in"

/-- The bindings of the sending side of a dynamic trigger, which is the first of its name and
component, under the first key of that side with the operation `out`. -/
def outgoing (received : EntityId) : Finset (Binding EntityId) :=
  m.events.toList.toFinset.filter fun t => sendingSide? m received = some t.sender ∧
    (m.events.senderKeys t.sender).find? (operation? · = some "out") = some t.senderKey

/-- For each inbound binding, its sender is bound to all to which the dynamic trigger sends out. -/
def bypasses : Finset (Binding EntityId) :=
  m.inbound.biUnion fun b => (m.outgoing b.receiver).image fun t =>
    { b with receiver := t.receiver, receiverKey := t.receiverKey }

variable {m : Model}

theorem toFinset_inbound : (m.events.toList.filter isInbound).toFinset = m.inbound := by
  rw [inbound, List.toFinset_filter]
  exact Finset.filter_congr fun b _ => isInbound_iff

theorem toFinset_targets (h : m.events.bySender.NoEmptyGroup) (received : EntityId) :
    (targets m received).toFinset = m.outgoing received := by
  ext t
  rw [List.mem_toFinset, mem_targets, outgoing, Finset.mem_filter, List.mem_toFinset]
  simp only [outBindings_eq h, List.mem_filter, decide_eq_true_eq]
  constructor
  · rintro ⟨_, hsending, ht, rfl, hkey⟩
    exact ⟨ht, hsending, hkey⟩
  · rintro ⟨ht, hsending, hkey⟩
    exact ⟨_, hsending, ht, rfl, hkey⟩

theorem toFinset_replacements (h : m.events.bySender.NoEmptyGroup) :
    ((m.events.toList.filter isInbound).flatMap (replacements m)).toFinset = m.bypasses := by
  ext c
  rw [bypasses, ← toFinset_inbound]
  simp only [← toFinset_targets h, replacements, List.mem_toFinset, List.mem_flatMap, List.mem_map,
    Finset.mem_biUnion, Finset.mem_image]

/-- Without inbound bindings there is nothing to do. -/
theorem relay_eq_self (h : ∀ b ∈ m.events.toList, isInbound b = false) :
    m.relay = (m, ⟨0, 0⟩) := by
  have hnone : m.events.toList.filter isInbound = [] :=
    List.filter_eq_nil_iff.mpr fun b hb => Bool.eq_false_iff.mp (h b hb)
  rw [relay, hnone]
  rfl

/-- Relaying is one change to the set of bindings, when nothing that it puts in is inbound. -/
theorem represents_relay {s : Finset (Binding EntityId)} (h : m.events.Represents s)
    (hapart : ∀ {b c}, c ∈ replacements m b → isInbound c = false) :
    m.relay.1.events.Represents ((s \ m.inbound) ∪ m.bypasses) ∧
      m.relay.2 = ⟨m.inbound.card, (m.bypasses \ s).card⟩ := by
  have hnodup : (m.events.toList.filter isInbound).Nodup := m.events.nodup_toList.filter _
  have houtside : ∀ b ∈ m.events.toList.filter isInbound,
      b ∉ (m.events.toList.filter isInbound).flatMap (replacements m) := by
    intro b hb hnew
    obtain ⟨_, -, hc⟩ := List.mem_flatMap.mp hnew
    exact Bool.false_ne_true ((hapart hc).symm.trans (List.mem_filter.mp hb).2)
  have hbound : ∀ b ∈ m.events.toList.filter isInbound, b ∈ s :=
    fun b hb => (h.mem_toList b).mp (List.mem_filter.mp hb).1
  obtain ⟨hrepresents, hcounts⟩ := represents_foldl_redirect hnodup houtside (m.events, ⟨0, 0⟩) h
    hbound
  have hkept : m.bypasses \ m.inbound = m.bypasses := by
    rw [← toFinset_replacements h.senders_filled, ← toFinset_inbound]
    exact Finset.sdiff_eq_self_of_disjoint (Finset.disjoint_right.mpr fun b hb => by
      rw [List.mem_toFinset] at hb ⊢
      exact houtside b hb)
  rw [toFinset_inbound, toFinset_replacements h.senders_filled, Finset.union_sdiff_distrib,
    hkept] at hrepresents
  rw [toFinset_replacements h.senders_filled, ← List.toFinset_card_of_nodup hnodup,
    toFinset_inbound, Nat.zero_add, Nat.zero_add] at hcounts
  exact ⟨hrepresents, hcounts⟩

/-- Relaying the events that were found between the entities of a model takes the inbound bindings
away, puts those past the dynamic triggers in, and counts both; there is nothing left to relay. -/
theorem relay_on_set {m₀ m : Model} (hempty : m₀.events = .empty)
    (hm : m.events = m₀.linkEvents.1.events) :
    let bound := m.events.toList.toFinset
    m.relay.1.events.toList.toFinset = (bound \ m.inbound) ∪ m.bypasses ∧
      m.relay.2 = ⟨m.inbound.card, (m.bypasses \ bound).card⟩ ∧
      m.relay.1.relay = (m.relay.1, ⟨0, 0⟩) := by
  have hevents : m.events =
      (BindingTable.empty.bindAll ((allMatches m₀).flatMap (·.bindings))).1 := by
    rw [hm, linkEvents_fst, hempty]
  have h : m.events.Represents m.events.toList.toFinset := by
    have hbound : m.events.Represents (∅ ∪ ((allMatches m₀).flatMap (·.bindings)).toFinset) :=
      hevents ▸ (BindingTable.represents_empty.bindAll _).1
    rwa [hbound.toFinset_toList]
  have hapart : ∀ {b c}, c ∈ replacements m b → isInbound c = false := by
    refine not_isInbound_of_mem_replacements fun t ht hsender hreceiver => ?_
    rw [hevents, BindingTable.mem_toList_bindAll] at ht
    cases (receiver_kind_of_mem_bindings (ht.resolve_left nofun) hsender).symm.trans hreceiver
  obtain ⟨hrepresents, hcounts⟩ := represents_relay h hapart
  refine ⟨hrepresents.toFinset_toList, hcounts, relay_eq_self fun b hb => ?_⟩
  rw [hrepresents.mem_toList, Finset.mem_union, Finset.mem_sdiff, ← toFinset_inbound,
    ← toFinset_replacements h.senders_filled] at hb
  simp only [List.mem_toFinset, List.mem_filter, List.mem_flatMap] at hb
  rcases hb with ⟨hbound, hnot⟩ | ⟨_, -, hnew⟩
  · exact Bool.eq_false_iff.mpr fun hin => hnot ⟨hbound, hin⟩
  · exact hapart hnew

/-! ### One event through a dynamic trigger -/

/-- The operation `ring` of `bell` goes to the dynamic trigger `delay`, and this to `hear` of
`ear`. -/
def delayModel : Model :=
  let ring : Endpoint := .new .moduleInstance "bell" "ring"
  let into : Endpoint := .new .dynamicTrigger "delay" "in"
  let out : Endpoint := .new .dynamicTrigger "delay" "out"
  let hear : Endpoint := .new .moduleInstance "ear" "hear"
  { Model.empty .empty ⟨∅, [("A:bell", "a"), ("A:ear", "a")], []⟩ with
    eventsSend := Store.empty.insert "A:ringing"
      ⟨⟨"A", "Ringing", "ringing", .c⟩, "ring", [], [(ring, [into])]⟩
    eventsReceived := Store.empty.insert "A:hearing"
      ⟨⟨"A", "Hearing", "hearing", .c⟩, "hear", [], [(hear, [out])]⟩
    dynamicTriggersSend := Store.empty.insert "A" ⟨"A", "delay", [], [(out, [hear])]⟩
    dynamicTriggersReceived := Store.empty.insert "A" ⟨"A", "delay", [], [(into, [ring])]⟩ }

theorem relay_on_set_delayModel : ∃ m : Model, delayModel.events = .empty ∧
    m.events = delayModel.linkEvents.1.events ∧ m.relay.2 = ⟨1, 1⟩ ∧
      m.relay.1.relay = (m.relay.1, ⟨0, 0⟩) := by
  have hempty : delayModel.events = .empty := rfl
  have hm : delayModel.linkEvents.1.events = delayModel.linkEvents.1.events := rfl
  obtain ⟨-, hcounts, hagain⟩ := relay_on_set hempty hm
  have hinbound : delayModel.linkEvents.1.inbound.card = 1 := by decide +kernel
  have hadded : (delayModel.linkEvents.1.bypasses \
      delayModel.linkEvents.1.events.toList.toFinset).card = 1 := by decide +kernel
  rw [hinbound, hadded] at hcounts
  exact ⟨_, hempty, hm, hcounts, hagain⟩

end Model

end Ecoa
