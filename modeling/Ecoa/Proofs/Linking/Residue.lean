import Ecoa.Proofs.Linking.Delivery

/-!
# What stays bound to dynamic triggers

Relaying takes the bindings to the `in` operations of dynamic triggers away. An event link may name
any other operation of a dynamic trigger among its receivers, and what it binds there is left.
-/

namespace Ecoa

open EventLinking

namespace EventLinking

variable {m : Model} {x y : Party} {c : Declared.Component} {name : String}

/-- What sends to a dynamic trigger sends under the key of an endpoint of it. -/
theorem triggerKey_of_mem_routeKeys {kind : EntityKind} {a b : EndpointKind} {route : Route}
    {p : LinkPair} {k : String × String}
    (hroute : route? kind .dynamicTriggerReceived a b = some route)
    (hk : k ∈ routeKeys m route x y p) : k.2 = triggerKey p.receiverOwn := by
  have hkind : kind = .external ∨ kind = .eventSend := by
    simpa [phases] using mem_phases_of_route? hroute
  have hroutes : route = .externalToDynamicTrigger ∨ route = .toDynamicTrigger := by
    rcases hkind with rfl | rfl
    · exact .inl (Option.some_inj.mp (Option.ite_none_right_eq_some.mp hroute).2).symm
    · exact .inr (Option.some_inj.mp (Option.ite_none_right_eq_some.mp hroute).2).symm
  rcases hroutes with rfl | rfl
  · exact congrArg Prod.snd (List.mem_singleton.mp hk)
  · obtain ⟨key, -, rfl⟩ := List.mem_map.mp hk
    rfl

/-- Whoever is found bound to a dynamic trigger, an event link of its component has the operation
in the key among its receivers. -/
theorem exists_sends_of_mem_partyKeys {k : String × String}
    (hy : IsDynamicTrigger y LinkFamily.events.receivers c name)
    (hkind : y.id.kind = .dynamicTriggerReceived) (hk : k ∈ partyKeys m x y) :
    ∃ operation, k.2 = name ++ ":" ++ operation ∧
      ∃ sender, c.Sends sender ⟨.dynamicTrigger, name, operation⟩ := by
  obtain ⟨p, hp, route, hroute, -, hk⟩ := mem_partyKeys.mp hk
  rw [hkind] at hroute
  obtain ⟨-, -, own, declared, -, hjoins, howneq, rfl⟩ := (LinkPair.exists_mem_all
    (Q := fun _ _ own declared => own = p.receiverOwn.id ∧ declared = p.receiverDeclared.id)).mp
      ⟨p, hp, rfl, rfl⟩
  subst howneq
  obtain ⟨hside, howner, hname⟩ := (hy.links _ _).mp hjoins
  refine ⟨p.receiverOwn.operation, ?_, p.receiverDeclared.id.port, ?_⟩
  · rw [triggerKey_of_mem_routeKeys hroute hk, triggerKey, ← hname]
    rfl
  · refine (LinkFamily.events.exists_joins c _ _).mp
      ⟨_, _, (LinkFamily.events.joins_receivers c _ _).mp hside, rfl, ?_⟩
    exact EndpointId.port_eq_iff.mpr ⟨howner, hname, rfl⟩

end EventLinking

namespace Model

variable {m m₁ : Model} {p : Declared.Project} {x : Binding EntityId}

/-- What is bound to a dynamic trigger after relaying was found, and is not inbound. -/
theorem IsEventLinked.mem_relayed_toTrigger (hl : m.IsEventLinked m₁)
    (hkind : x.receiver.kind = .dynamicTriggerReceived) :
    x ∈ m₁.relayed.toList ↔
      x ∈ (allMatches m).flatMap (·.bindings) ∧ Relay.isInbound x = false := by
  rw [mem_relayed fun _ _ _ _ => hl.not_isInbound_of_mem_replacements, hl.mem_events]
  refine or_iff_left ?_
  -- what is put in the place of an inbound binding goes to a module operation
  rintro ⟨b, -, -, hmem⟩
  obtain ⟨-, -, t, ht, hreceiver, -⟩ := Relay.mem_replacements.mp hmem
  obtain ⟨sender, hsending, hsent⟩ := Relay.mem_targets.mp ht
  obtain ⟨hbound, hsender, -⟩ := Relay.of_mem_outBindings hsent
  obtain ⟨-, i, -, -, hi, -⟩ := Relay.sendingSide?_eq_some hsending
  obtain ⟨r, -, hr, -⟩ := hl.exists_receiver hbound (hsender.trans hi)
  rw [hreceiver, hr] at hkind
  cases hkind

/-- Only events of modules and of code outside are found bound to dynamic triggers. -/
theorem isInbound_iff_of_mem_bindings (hx : x ∈ (allMatches m).flatMap (·.bindings))
    (hkind : x.receiver.kind = .dynamicTriggerReceived) :
    Relay.isInbound x = true ↔ Relay.operation? x.receiverKey = some "in" := by
  have hphase := (exists_of_mem_bindings hx).1
  rw [hkind] at hphase
  have hsender : x.sender.kind = .eventSend ∨ x.sender.kind = .external := by
    simpa [phases, or_comm] using hphase
  rw [Relay.isInbound_iff, and_iff_right hsender, and_iff_right hkind]

end Model

/-- What stays bound to a dynamic trigger stands under the key of an operation of it that an event
link of its component has among its receivers. Where its name has no colon, this is not `in`. -/
theorem Builder.Builds.dynamicTrigger_residue {b : Builder} {m : Model} (hb : b.Builds m)
    {x : Binding EntityId} (hx : x ∈ m.events.toList)
    (hkind : x.receiver.kind = .dynamicTriggerReceived) :
    ∃ c ∈ b.project.components, ∃ t ∈ c.dynamicTriggerInstances, ∃ operation,
      x.receiverKey = t.name ++ ":" ++ operation ∧
      (∃ sender, c.Sends sender ⟨.dynamicTrigger, t.name, operation⟩) ∧
      (':' ∉ t.name.toList → operation ≠ "in") := by
  obtain ⟨m₀, hm₀, _, _, _, _, hlink⟩ := hb.exists_linked
  have hevents : m.events = m₀.linkEvents.1.relayed := by rw [hlink]
  clear hlink
  rw [hevents] at hx
  obtain ⟨hfound, hinbound⟩ := (hm₀.isEventLinked.mem_relayed_toTrigger hkind).mp hx
  obtain ⟨-, hsender, g, hg⟩ := exists_of_mem_bindings hfound
  obtain ⟨e, he⟩ := hsender
  obtain ⟨⟨senderKind, s⟩, senderKey, ⟨_, n⟩, receiverKey⟩ := x
  cases hkind
  obtain ⟨group, hentry⟩ := Store.get?_eq_some_iff.mp hg
  obtain ⟨c, hc, -, -, ⟨t, ht, htname⟩, hy⟩ :=
    hm₀.exists_trigger .dynamicTriggerReceived hentry LinkFamily.events.receivers fun _ => id
  obtain ⟨operation, hkey, hsends⟩ := exists_sends_of_mem_partyKeys hy rfl
    ((mem_bindings_iff senderKind .dynamicTriggerReceived he hg).mp hfound)
  rw [← htname] at hkey hsends
  refine ⟨c, hc, t, ht, operation, hkey, hsends, ?_⟩
  rintro hplain rfl
  have hin := (Model.isInbound_iff_of_mem_bindings hfound rfl).mpr
    ((congrArg Relay.operation? hkey).trans (Relay.operation?_triggerKey hplain (by decide)))
  exact Bool.false_ne_true (hinbound.symm.trans hin)

/-! ## An event to another operation than `in` -/

namespace Declared

/-- A component that sends an event to the operation `start` of the dynamic trigger `delay`. -/
def startingComponent : Component where
  name := "A"
  directory := "A"
  uses := []
  moduleTypes := [⟨"Ringing", { Operations.none with eventSent := [⟨"ring", []⟩] }, [], [], []⟩]
  moduleImplementations := [⟨"ringing", "Ringing", "C"⟩]
  moduleInstances := [⟨"bell", "ringing", [], []⟩]
  triggerInstances := []
  dynamicTriggerInstances := [⟨"delay", []⟩]
  eventLinks := [
    ⟨.ofList [(.moduleInstance, [⟨"bell", "ring", none, none⟩])],
      .ofList [(.dynamicTrigger, [⟨"delay", "start", none, none⟩])]⟩]
  requestLinks := []
  dataLinks := []

def startingProject : Project where
  libraries := []
  components := [startingComponent]
  deployment := ⟨[⟨"pd", [⟨"a", "bell"⟩]⟩]⟩
  assembly := ⟨[⟨"a", "A", ∅⟩], []⟩

end Declared

open Declared in
/-- The project builds, and its event stays bound to the dynamic trigger. -/
theorem Builder.Builds.exists_dynamicTriggerReceived_startingProject :
    ∃ m, (Builder.new startingProject).Builds m ∧
      ∃ x ∈ m.events.toList, x.receiver.kind = .dynamicTriggerReceived := by
  refine ⟨_, ⟨_, _, rfl, rfl⟩, ⟨⟨.eventSend, 0⟩, "bell:a", ⟨.dynamicTriggerReceived, 0⟩,
    "delay:start"⟩, ?_, rfl⟩
  decide +kernel

open Declared in
theorem Builder.Builds.dynamicTrigger_residue_startingProject :
    ∃ m, (Builder.new startingProject).Builds m ∧
      ∃ x ∈ m.events.toList, x.receiver.kind = .dynamicTriggerReceived ∧
        ∃ t ∈ startingComponent.dynamicTriggerInstances, ∃ operation,
          x.receiverKey = t.name ++ ":" ++ operation ∧ operation ≠ "in" := by
  have hb : (Builder.new startingProject).Builds _ := ⟨_, _, rfl, rfl⟩
  refine ⟨_, hb, ⟨⟨.eventSend, 0⟩, "bell:a", ⟨.dynamicTriggerReceived, 0⟩, "delay:start"⟩,
    by decide +kernel, rfl, ?_⟩
  obtain ⟨c, hc, t, ht, operation, hkey, -, hoperation⟩ := dynamicTrigger_residue hb
    (x := ⟨⟨.eventSend, 0⟩, "bell:a", ⟨.dynamicTriggerReceived, 0⟩, "delay:start"⟩)
    (by decide +kernel) rfl
  cases List.mem_singleton.mp hc
  cases List.mem_singleton.mp ht
  exact ⟨_, List.mem_cons_self, operation, hkey, hoperation (by decide)⟩

end Ecoa
