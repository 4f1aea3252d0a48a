import Ecoa.Proofs.Linking.Steps

/-!
# What relaying does to the event bindings

Relaying takes the inbound bindings of dynamic triggers away and puts others in their place. As no
binding that is put there is inbound, the order in which this is done does not matter.
-/

namespace Ecoa

namespace Relay

/-- The operation in the key of a dynamic trigger whose name and operation have no colon. -/
theorem operation?_triggerKey {name operation : String} (hname : ':' ∉ name.toList)
    (hoperation : ':' ∉ operation.toList) :
    operation? (name ++ ":" ++ operation) = some operation := by
  have h : Text.fieldsOf ':' (name ++ ":" ++ operation) = [name, operation] :=
    Text.fieldsOf_pair hname hoperation
  rw [operation?, h]
  rfl

theorem mem_redirect {state : BindingTable EntityId × Counts}
    {step : Binding EntityId × List (Binding EntityId)} {c : Binding EntityId} :
    c ∈ (redirect state step).1.toList ↔ (c ∈ state.1.toList ∨ c ∈ step.2) ∧ c ≠ step.1 := by
  unfold redirect
  rw [BindingTable.mem_toList_unbind, BindingTable.mem_toList_bindAll]

/-- Steps of which none takes away what another puts in place can be made in any order. -/
theorem mem_foldl_redirect {steps : List (Binding EntityId × List (Binding EntityId))}
    {c : Binding EntityId} (hc : (∃ step ∈ steps, c ∈ step.2) → ∀ step ∈ steps, c ≠ step.1)
    (state : BindingTable EntityId × Counts) :
    c ∈ (steps.foldl redirect state).1.toList ↔
      (c ∈ state.1.toList ∧ ∀ step ∈ steps, c ≠ step.1) ∨ ∃ step ∈ steps, c ∈ step.2 := by
  induction steps generalizing state with
  | nil => simp
  | cons step steps ih =>
    have hrest : (∃ s ∈ steps, c ∈ s.2) → ∀ s ∈ steps, c ≠ s.1 := by
      rintro ⟨s, hs, hcs⟩ t ht
      exact hc ⟨s, List.mem_cons_of_mem _ hs, hcs⟩ t (List.mem_cons_of_mem _ ht)
    rw [List.foldl_cons, ih hrest, mem_redirect, List.forall_mem_cons, List.exists_mem_cons_iff]
    constructor
    · rintro (⟨⟨hold | hnew, hne⟩, hall⟩ | hnew)
      · exact .inl ⟨hold, hne, hall⟩
      · exact .inr (.inl hnew)
      · exact .inr (.inr hnew)
    · rintro (⟨hold, hne, hall⟩ | hnew | hnew)
      · exact .inl ⟨⟨.inl hold, hne⟩, hall⟩
      · obtain ⟨hne, hall⟩ := List.forall_mem_cons.mp (hc ⟨step, List.mem_cons_self, hnew⟩)
        exact .inl ⟨⟨.inr hnew, hne⟩, hall⟩
      · exact .inr hnew

theorem isInbound_iff {b : Binding EntityId} : isInbound b = true ↔
    (b.sender.kind = .eventSend ∨ b.sender.kind = .external) ∧
      b.receiver.kind = .dynamicTriggerReceived ∧ operation? b.receiverKey = some "in" := by
  simp only [isInbound, Bool.decide_or, Bool.decide_and, Bool.or_eq_true, decide_eq_true_eq,
    Bool.and_eq_true]

variable {m : Model}

theorem mem_replacements {b c : Binding EntityId} : c ∈ replacements m b ↔
    c.sender = b.sender ∧ c.senderKey = b.senderKey ∧
      ∃ t ∈ targets m b.receiver, c.receiver = t.receiver ∧ c.receiverKey = t.receiverKey := by
  simp only [replacements, List.mem_map]
  constructor
  · rintro ⟨t, ht, rfl⟩
    exact ⟨rfl, rfl, t, ht, rfl, rfl⟩
  · rintro ⟨hs, hk, t, ht, hr, hk'⟩
    exact ⟨t, ht, Binding.eq_iff.mpr ⟨hs.symm, hk.symm, hk'.symm, hr.symm⟩⟩

/-- What a dynamic trigger sends out is bound under an `out` key of it. -/
theorem of_mem_outBindings {sender : EntityId} {t : Binding EntityId}
    (h : t ∈ outBindings m sender) :
    t ∈ m.events.toList ∧ t.sender = sender ∧ operation? t.senderKey = some "out" := by
  unfold outBindings at h
  dsimp only at h
  split at h
  · next first hfirst =>
    have hout := List.find?_some hfirst
    simp only [List.mem_filter, decide_eq_true_eq] at h hout
    exact ⟨h.1.1, h.1.2, h.2 ▸ hout⟩
  · cases h

/-- Where it has one `out` key only, it sends out all that is bound under it. -/
theorem mem_outBindings {sender : EntityId} {t : Binding EntityId} {key : String}
    (hkey : ∀ b ∈ m.events.toList, b.sender = sender → operation? b.senderKey = some "out" →
      b.senderKey = key)
    (ht : t ∈ m.events.toList) (hs : t.sender = sender)
    (hout : operation? t.senderKey = some "out") : t ∈ outBindings m sender := by
  unfold outBindings
  dsimp only
  split
  · next first hfirst =>
    have hmem := List.mem_of_find?_eq_some hfirst
    have hout' := List.find?_some hfirst
    simp only [List.mem_filter, decide_eq_true_eq] at hmem hout' ⊢
    exact ⟨⟨ht, hs⟩, (hkey t ht hs hout).trans (hkey first hmem.1 hmem.2 hout').symm⟩
  · next hnone =>
    simp only [List.find?_eq_none, List.mem_filter, decide_eq_true_eq] at hnone
    exact absurd hout (hnone t ⟨ht, hs⟩)

theorem mem_targets {received : EntityId} {t : Binding EntityId} :
    t ∈ targets m received ↔
      ∃ sender, sendingSide? m received = some sender ∧ t ∈ outBindings m sender := by
  unfold targets
  split
  · next sender h => simp [h]
  · next h => simp [h]

/-- The sending side of a dynamic trigger has its name and is of its component. -/
theorem sendingSide?_eq_some {received sender : EntityId}
    (h : sendingSide? m received = some sender) :
    ∃ f i g, m.dynamicTriggersReceived.get? received.index = some f ∧
      sender = ⟨.dynamicTriggerSend, i⟩ ∧
      m.dynamicTriggersSend.entries[i]? = some (f.component, g) ∧ g.name = f.name := by
  obtain ⟨f, hf, h⟩ := Option.bind_eq_some_iff.mp h
  obtain ⟨⟨i, g⟩, hg, rfl⟩ := Option.map_eq_some_iff.mp h
  have hname := List.find?_some hg
  exact ⟨f, i, g, hf, rfl, Store.mem_group.mp (List.mem_of_find?_eq_some hg),
    of_decide_eq_true hname⟩

theorem exists_sendingSide? (kind : EntityKind) {n i : Nat} {f g : DynamicTrigger}
    (hf : m.dynamicTriggersReceived.get? n = some f)
    (hg : m.dynamicTriggersSend.entries[i]? = some (f.component, g)) (hname : g.name = f.name) :
    ∃ sender, sendingSide? m ⟨kind, n⟩ = some sender := by
  have hsome : ((m.dynamicTriggersSend.group f.component).find? (·.2.name = f.name)).isSome := by
    rw [List.find?_isSome]
    exact ⟨(i, g), Store.mem_group.mpr hg, decide_eq_true hname⟩
  obtain ⟨found, hfound⟩ := Option.isSome_iff_exists.mp hsome
  exact ⟨⟨.dynamicTriggerSend, found.1⟩, by rw [sendingSide?, hf, Option.bind_some, hfound]; rfl⟩

/-- What stands in the place of a binding is not inbound, unless dynamic triggers send to dynamic
triggers. -/
theorem not_isInbound_of_mem_replacements (h : ∀ t ∈ m.events.toList,
      t.sender.kind = .dynamicTriggerSend → t.receiver.kind ≠ .dynamicTriggerReceived)
    {b c : Binding EntityId} (hc : c ∈ replacements m b) : isInbound c = false := by
  obtain ⟨-, -, t, ht, hreceiver, -⟩ := mem_replacements.mp hc
  obtain ⟨sender, hsending, hsent⟩ := mem_targets.mp ht
  obtain ⟨hbound, hsender, -⟩ := of_mem_outBindings hsent
  obtain ⟨-, i, -, -, rfl, -⟩ := sendingSide?_eq_some hsending
  rw [Bool.eq_false_iff, ne_eq, isInbound_iff, hreceiver]
  rintro ⟨-, hkind, -⟩
  exact h t hbound (congrArg EntityId.kind hsender) hkind

end Relay

namespace Model

variable {m : Model}

/-- What is left after relaying: the bindings that are not inbound, and what stands for the rest. -/
theorem mem_relayed (h : ∀ b ∈ m.events.toList, Relay.isInbound b = true →
      ∀ c ∈ Relay.replacements m b, Relay.isInbound c = false) {c : Binding EntityId} :
    c ∈ m.relayed.toList ↔ (c ∈ m.events.toList ∧ Relay.isInbound c = false) ∨
      ∃ b ∈ m.events.toList, Relay.isInbound b = true ∧ c ∈ Relay.replacements m b := by
  unfold relayed
  rw [Relay.mem_foldl_redirect]
  · simp only [List.mem_map, List.mem_filter]
    refine or_congr ?_ ?_
    · refine and_congr_right fun hc => ⟨fun hall => ?_, ?_⟩
      · cases hin : Relay.isInbound c with
        | false => rfl
        | true => exact absurd rfl (hall _ ⟨c, ⟨hc, hin⟩, rfl⟩)
      · rintro hin _ ⟨b, ⟨-, hb⟩, rfl⟩ rfl
        exact Bool.false_ne_true (hin.symm.trans hb)
    · constructor
      · rintro ⟨_, ⟨b, ⟨hb, hin⟩, rfl⟩, hc⟩
        exact ⟨b, hb, hin, hc⟩
      · rintro ⟨b, hb, hin, hc⟩
        exact ⟨_, ⟨b, ⟨hb, hin⟩, rfl⟩, hc⟩
  · simp only [List.mem_map, List.mem_filter]
    rintro ⟨_, ⟨b, ⟨hb, hin⟩, rfl⟩, hc⟩ _ ⟨b', ⟨-, hin'⟩, rfl⟩ rfl
    exact Bool.false_ne_true ((h b hb hin _ hc).symm.trans hin')

end Model

end Ecoa
