import Ecoa.Proofs.Linking.Events
import Ecoa.Proofs.Linking.Relay
import Mathlib.Data.List.Nodup

/-!
# Which events are delivered

A module operation reaches another by an event link of their component, over a wire, or through a
dynamic trigger of their component, and this is all that is left bound between them after relaying.
-/

namespace Ecoa

open EventLinking

namespace Declared

/-- Names and operations of dynamic triggers have no colon, which separates them in keys. -/
structure Component.HasPlainTriggers (c : Component) : Prop where
  names : ∀ t ∈ c.dynamicTriggerInstances, ':' ∉ t.name.toList
  operations : ∀ l ∈ c.eventLinks, ∀ p ∈ l.senders.ports ++ l.receivers.ports,
    p.kind = .dynamicTrigger → ':' ∉ p.operation.toList

/-- An event link takes the events to the trigger, and one takes them on from it. -/
def Component.Relays (c : Component) (trigger : String) (sender receiver : Port) : Prop :=
  c.Sends sender ⟨.dynamicTrigger, trigger, "in"⟩ ∧
    c.Sends ⟨.dynamicTrigger, trigger, "out"⟩ receiver

/-- The sender reaches the receiver when they run under these component instances: in one component
by an event link or through a dynamic trigger, or between ports that a wire joins. -/
def Project.Notifies (p : Project) (c d : Component) (sender receiver : Port) (u v : String) :
    Prop :=
  (c = d ∧ c.Sends sender receiver) ∨
    (∃ near far : Port, near.kind.isWired ∧ far.kind.isWired ∧ near.operation = far.operation ∧
      c.Sends sender near ∧ d.Sends far receiver ∧
        p.assembly.Joins ⟨u, near.instanceName⟩ ⟨v, far.instanceName⟩) ∨
    c = d ∧ ∃ t ∈ c.dynamicTriggerInstances, c.Relays t.name sender receiver

theorem Component.HasPlainTriggers.of_sends_to {c : Component} (h : c.HasPlainTriggers)
    {s : Port} {name operation : String} (hs : c.Sends s ⟨.dynamicTrigger, name, operation⟩) :
    ':' ∉ operation.toList := by
  obtain ⟨l, hl, -, hr⟩ := hs
  exact h.operations l hl _ (List.mem_append_right _ hr) rfl

theorem Component.HasPlainTriggers.of_sends_from {c : Component} (h : c.HasPlainTriggers)
    {r : Port} {name operation : String} (hs : c.Sends ⟨.dynamicTrigger, name, operation⟩ r) :
    ':' ∉ operation.toList := by
  obtain ⟨l, hl, hs, -⟩ := hs
  exact h.operations l hl _ (List.mem_append_left _ hs) rfl

theorem Component.HasDynamicTrigger.isDynamicTrigger {c : Component} {side : Component → Links}
    {group : String} {e : DynamicTrigger} (h : c.HasDynamicTrigger (side c) group e)
    (id : EntityId) : IsDynamicTrigger ⟨id, e.component, e.links⟩ side c e.name := by
  refine ⟨h.component, fun a b => ?_, fun _ hp => hp.1⟩
  dsimp only
  rw [h.links]
  exact EndpointIndex.joins_selectInstance

end Declared

namespace Model

variable {m : Model} {p : Declared.Project}

/-- The operation `e`, at `s` among those that send events, is of the component. -/
abbrev IsSenderOf (s : Nat) (e : Event) (c : Declared.Component) : Prop :=
  Party.IsOperation ⟨⟨.eventSend, s⟩, e.scope.component, e.links⟩ LinkFamily.events.senders c
    e.scope.moduleImplementation e.name

abbrev IsReceiverOf (r : Nat) (f : Event) (d : Declared.Component) : Prop :=
  Party.IsOperation ⟨⟨.eventReceived, r⟩, f.scope.component, f.links⟩ LinkFamily.events.receivers d
    f.scope.moduleImplementation f.name

/-- In `m₁` is bound what is found in `m`, before relaying. -/
structure IsEventLinked (m m₁ : Model) : Prop where
  mem_events : ∀ b, b ∈ m₁.events.toList ↔ b ∈ (allMatches m).flatMap (·.bindings)
  dynamicTriggersSend : m₁.dynamicTriggersSend = m.dynamicTriggersSend
  dynamicTriggersReceived : m₁.dynamicTriggersReceived = m.dynamicTriggersReceived

/-- Under this key, the entity is bound in `m₁` to the operations of dynamic triggers of the
component that `S` tells, and to no others. -/
structure Feeds (m m₁ : Model) (x : EntityId) (key : String) (c : Declared.Component)
    (S : String → String → Prop) : Prop where
  kind : x.kind = .eventSend ∨ x.kind = .external
  mem_events : ∀ {n group g key'}, m.dynamicTriggersReceived.entries[n]? = some (group, g) →
    (⟨x, key, ⟨.dynamicTriggerReceived, n⟩, key'⟩ ∈ m₁.events.toList ↔
      ∃ operation, key' = g.name ++ ":" ++ operation ∧ c.name = group ∧ S g.name operation)
  plain : ∀ {t operation}, S t operation → ':' ∉ operation.toList

theorem IsPopulated.isEventLinked (h : m.IsPopulated p) : m.IsEventLinked m.linkEvents.1 := by
  have hmem := fun b => m.mem_toList_linkEvents h.events (b := b)
  rw [linkEvents_fst] at hmem ⊢
  exact ⟨hmem, rfl, rfl⟩

/-- A side of a dynamic trigger that the model has is one of a component of the project. -/
theorem IsPopulated.exists_trigger (h : m.IsPopulated p) (kind : EntityKind) {i : Nat}
    {group : String} {e : Entity kind} (he : (m.store kind).entries[i]? = some (group, e))
    (side : Declared.Component → Links) {g : DynamicTrigger}
    (hdeclares : ∀ c : Declared.Component, c.Declares ⟨kind, group, e⟩ →
      c.HasDynamicTrigger (side c) group g) :
    ∃ c ∈ p.components, c.name = group ∧ g.component = group ∧
      (∃ t ∈ c.dynamicTriggerInstances, t.name = g.name) ∧
        IsDynamicTrigger ⟨⟨kind, i⟩, g.component, g.links⟩ side c g.name := by
  obtain ⟨c, hc, hdeclared⟩ := h.declared ⟨kind, group, e⟩ (Array.mem_of_getElem? he)
  have htrigger := hdeclares c hdeclared
  exact ⟨c, hc, htrigger.group.symm, htrigger.component.trans htrigger.group.symm, htrigger.name,
    htrigger.isDynamicTrigger ⟨kind, i⟩⟩

section

variable {m₁ : Model} (hl : m.IsEventLinked m₁) (h : m.IsPopulated p)
  (hnames : (p.components.map (·.name)).Nodup)

include hl

/-- Dynamic triggers send to module operations that are stored. -/
theorem IsEventLinked.exists_receiver {b : Binding EntityId}
    (hb : b ∈ m₁.events.toList) {i : Nat} (hsender : b.sender = ⟨.dynamicTriggerSend, i⟩) :
    ∃ r f, b.receiver = ⟨.eventReceived, r⟩ ∧ m.eventsReceived.get? r = some f := by
  rw [hl.mem_events] at hb
  obtain ⟨-, -, f, hf⟩ := exists_of_mem_bindings hb
  have hkind := receiver_kind_of_mem_bindings hb (congrArg EntityId.kind hsender)
  obtain ⟨_, _, ⟨kind, r⟩, _⟩ := b
  cases hkind
  exact ⟨r, f, rfl, hf⟩

/-- What stands in the place of an inbound binding is not inbound. -/
theorem IsEventLinked.not_isInbound_of_mem_replacements {b c : Binding EntityId}
    (hc : c ∈ Relay.replacements m₁ b) : Relay.isInbound c = false := by
  refine Relay.not_isInbound_of_mem_replacements (fun t ht hsender hreceiver => ?_) hc
  rw [hl.mem_events] at ht
  cases (receiver_kind_of_mem_bindings ht hsender).symm.trans hreceiver

include h hnames

/-- Under which keys a dynamic trigger is bound to a module operation. -/
theorem IsEventLinked.mem_events_fromTrigger {i r : Nat} {group key key' : String}
    {g : DynamicTrigger} {f : Event}
    (hg : m.dynamicTriggersSend.entries[i]? = some (group, g))
    (hf : m.eventsReceived.get? r = some f) {d : Declared.Component} (hd : d ∈ p.components)
    (hy : IsReceiverOf r f d) :
    ⟨⟨.dynamicTriggerSend, i⟩, key, ⟨.eventReceived, r⟩, key'⟩ ∈ m₁.events.toList ↔
      ∃ operation j v, m.deployment.Runs d f.scope.moduleImplementation j v ∧
        key = g.name ++ ":" ++ operation ∧ key' = j ++ ":" ++ v ∧ d.name = group ∧
          d.Sends ⟨.dynamicTrigger, g.name, operation⟩ ⟨.moduleInstance, j, f.name⟩ := by
  obtain ⟨c, hc, hcname, -, -, hx⟩ := h.exists_trigger .dynamicTriggerSend hg
    LinkFamily.events.senders fun _ => id
  have hsame : c.name = d.name → c = d := List.inj_on_of_nodup_map hnames hc hd
  rw [hl.mem_events, mem_bindings_iff .dynamicTriggerSend .eventReceived
    (Store.get?_eq_some_iff.mpr ⟨group, hg⟩) hf]
  refine (mem_partyKeys_fromTrigger rfl hx rfl hy hsame).trans ?_
  constructor
  · rintro ⟨operation, j, v, hrun, hk, rfl, hsends⟩
    obtain ⟨rfl, rfl⟩ := Prod.mk.inj hk
    exact ⟨operation, j, v, hrun, rfl, rfl, hcname, hsends⟩
  · rintro ⟨operation, j, v, hrun, rfl, rfl, hdname, hsends⟩
    cases hsame (hcname.trans hdname.symm)
    exact ⟨operation, j, v, hrun, rfl, rfl, hsends⟩

/-- Under which keys a module operation is bound to a dynamic trigger. -/
theorem IsEventLinked.mem_events_toTrigger {s i : Nat} {group key key' : String} {e : Event}
    {g : DynamicTrigger} (he : m.eventsSend.get? s = some e)
    (hg : m.dynamicTriggersReceived.entries[i]? = some (group, g)) {c : Declared.Component}
    (hc : c ∈ p.components) (hx : IsSenderOf s e c) :
    ⟨⟨.eventSend, s⟩, key, ⟨.dynamicTriggerReceived, i⟩, key'⟩ ∈ m₁.events.toList ↔
      ∃ j u operation, m.deployment.Runs c e.scope.moduleImplementation j u ∧
        key = j ++ ":" ++ u ∧ key' = g.name ++ ":" ++ operation ∧ c.name = group ∧
          c.Sends ⟨.moduleInstance, j, e.name⟩ ⟨.dynamicTrigger, g.name, operation⟩ := by
  obtain ⟨d, hd, hdname, -, -, hy⟩ := h.exists_trigger .dynamicTriggerReceived hg
    LinkFamily.events.receivers fun _ => id
  have hsame : c.name = d.name → c = d := List.inj_on_of_nodup_map hnames hc hd
  rw [hl.mem_events, mem_bindings_iff .eventSend .dynamicTriggerReceived he
    (Store.get?_eq_some_iff.mpr ⟨group, hg⟩)]
  refine (mem_partyKeys_toTrigger rfl hx rfl hy hsame).trans ?_
  constructor
  · rintro ⟨j, u, operation, hrun, hk, rfl, hsends⟩
    obtain ⟨rfl, rfl⟩ := Prod.mk.inj hk
    exact ⟨j, u, operation, hrun, rfl, rfl, hdname, hsends⟩
  · rintro ⟨j, u, operation, hrun, rfl, rfl, hcname, hsends⟩
    cases hsame (hcname.trans hdname.symm)
    exact ⟨j, u, operation, hrun, rfl, rfl, hsends⟩

variable (hplain : ∀ c ∈ p.components, c.HasPlainTriggers)

include hplain

omit hl hnames in
/-- The name of a dynamic trigger has no colon. -/
theorem IsPopulated.not_mem_name {i : Nat} {group : String} {g : DynamicTrigger}
    (hg : m.dynamicTriggersSend.entries[i]? = some (group, g)) : ':' ∉ g.name.toList := by
  obtain ⟨c, hc, -, -, ⟨t, ht, htname⟩, -⟩ := h.exists_trigger .dynamicTriggerSend hg
    LinkFamily.events.senders fun _ => id
  exact htname ▸ (hplain c hc).names t ht

/-- A dynamic trigger has one `out` key. -/
theorem IsEventLinked.senderKey_of_out {b : Binding EntityId}
    (hb : b ∈ m₁.events.toList) {i : Nat} {group : String} {g : DynamicTrigger}
    (hg : m.dynamicTriggersSend.entries[i]? = some (group, g))
    (hsender : b.sender = ⟨.dynamicTriggerSend, i⟩)
    (hout : Relay.operation? b.senderKey = some "out") : b.senderKey = g.name ++ ":" ++ "out" := by
  obtain ⟨r, f, hr, hf⟩ := hl.exists_receiver hb hsender
  obtain ⟨d, hd, -, hy⟩ := h.exists_operation .eventReceived hf
    LinkFamily.events.receivers fun _ _ => id
  obtain ⟨_, key, _, key'⟩ := b
  cases hsender
  cases hr
  obtain ⟨operation, j, v, -, rfl, -, -, hsends⟩ :=
    (hl.mem_events_fromTrigger h hnames hg hf hd hy).mp hb
  rw [Relay.operation?_triggerKey (h.not_mem_name hplain hg)
    ((hplain d hd).of_sends_from hsends)] at hout
  rw [Option.some.inj hout]

omit hnames hplain in
/-- For the receiving side of a dynamic trigger a sending side is found, which need not be the one
that was made with it. -/
theorem IsEventLinked.exists_sendingSide {n : Nat} {group : String} {g : DynamicTrigger}
    (hg : m.dynamicTriggersReceived.entries[n]? = some (group, g)) :
    ∃ k sent, m.dynamicTriggersSend.entries[k]? = some (group, sent) ∧ sent.name = g.name ∧
      Relay.sendingSide? m₁ ⟨.dynamicTriggerReceived, n⟩ = some ⟨.dynamicTriggerSend, k⟩ := by
  obtain ⟨c, hc, hcname, hgroup, ⟨t, ht, htname⟩, -⟩ := h.exists_trigger .dynamicTriggerReceived hg
    LinkFamily.events.receivers fun _ => id
  obtain ⟨found, layout, hfound, hholds⟩ := h.entries c hc
  obtain ⟨⟨made, hmadename, hmade⟩, -⟩ := hfound.exists_dynamicTrigger ht
  obtain ⟨i, hi⟩ := Array.mem_iff_getElem?.mp (hholds _ hmade)
  have hreceived : m₁.dynamicTriggersReceived.get? n = some g := by
    rw [hl.dynamicTriggersReceived]
    exact Store.get?_eq_some_iff.mpr ⟨group, hg⟩
  have hsent : m₁.dynamicTriggersSend.entries[i]? = some (g.component, made) := by
    rw [hl.dynamicTriggersSend, hgroup, ← hcname]
    exact hi
  obtain ⟨sender, hsending⟩ := Relay.exists_sendingSide? .dynamicTriggerReceived hreceived hsent
    (hmadename.trans htname)
  obtain ⟨g', k, sent, hg', rfl, hk, hname⟩ := Relay.sendingSide?_eq_some hsending
  cases hreceived.symm.trans hg'
  rw [hl.dynamicTriggersSend, hgroup] at hk
  exact ⟨k, sent, hk, hname, hsending⟩

omit hl hnames hplain in
/-- The receiving side of a dynamic trigger of a component. -/
theorem IsPopulated.exists_receivingSide {c : Declared.Component} (hc : c ∈ p.components)
    {t : Declared.DynamicTriggerInstance} (ht : t ∈ c.dynamicTriggerInstances) :
    ∃ (n : Nat) (g : DynamicTrigger), m.dynamicTriggersReceived.entries[n]? = some (c.name, g) ∧
      g.name = t.name := by
  obtain ⟨found, layout, hfound, hholds⟩ := h.entries c hc
  obtain ⟨-, g, hname, hg⟩ := hfound.exists_dynamicTrigger ht
  obtain ⟨n, hn⟩ := Array.mem_iff_getElem?.mp (hholds _ hg)
  exact ⟨n, g, hn, hname⟩

section

variable {r : Nat} {f : Event} (hf : m.eventsReceived.get? r = some f) {d : Declared.Component}
  (hd : d ∈ p.components) (hy : IsReceiverOf r f d) {x : EntityId} {key key' : String}

include hf hd hy

/-- A dynamic trigger sends out to a module operation what its `out` operation sends there. -/
theorem IsEventLinked.mem_outBindings_iff {k : Nat} {group : String} {g : DynamicTrigger}
    (hg : m.dynamicTriggersSend.entries[k]? = some (group, g)) :
    ⟨⟨.dynamicTriggerSend, k⟩, key, ⟨.eventReceived, r⟩, key'⟩ ∈
        Relay.outBindings m₁ ⟨.dynamicTriggerSend, k⟩ ↔
      ∃ j v, m.deployment.Runs d f.scope.moduleImplementation j v ∧
        key = g.name ++ ":" ++ "out" ∧ key' = j ++ ":" ++ v ∧ d.name = group ∧
          d.Sends ⟨.dynamicTrigger, g.name, "out"⟩ ⟨.moduleInstance, j, f.name⟩ := by
  have hname := h.not_mem_name hplain hg
  constructor
  · intro hsent
    obtain ⟨hmem, -, hout⟩ := Relay.of_mem_outBindings hsent
    obtain ⟨operation, j, v, hrun, rfl, hkey', hdname, hsends⟩ :=
      (hl.mem_events_fromTrigger h hnames hg hf hd hy).mp hmem
    rw [Relay.operation?_triggerKey hname ((hplain d hd).of_sends_from hsends)] at hout
    cases hout
    exact ⟨j, v, hrun, rfl, hkey', hdname, hsends⟩
  · rintro ⟨j, v, hrun, rfl, hkey', hdname, hsends⟩
    have hbound := (hl.mem_events_fromTrigger h hnames hg hf hd hy).mpr
      ⟨"out", j, v, hrun, rfl, hkey', hdname, hsends⟩
    have hout := Relay.operation?_triggerKey hname (show ':' ∉ "out".toList by decide)
    exact Relay.mem_outBindings
      (fun b hb hsender hout => hl.senderKey_of_out h hnames hplain hb hg hsender hout)
      hbound rfl hout

/-- What stands in the place of a binding to a dynamic trigger goes to the operations to which the
trigger sends out. -/
theorem IsEventLinked.mem_replacements_iff {b : Binding EntityId} {n : Nat} {group : String}
    {g : DynamicTrigger} (hb : b.receiver = ⟨.dynamicTriggerReceived, n⟩)
    (hg : m.dynamicTriggersReceived.entries[n]? = some (group, g)) :
    ⟨x, key, ⟨.eventReceived, r⟩, key'⟩ ∈ Relay.replacements m₁ b ↔
      x = b.sender ∧ key = b.senderKey ∧
        ∃ j v, m.deployment.Runs d f.scope.moduleImplementation j v ∧ key' = j ++ ":" ++ v ∧
          d.name = group ∧
            d.Sends ⟨.dynamicTrigger, g.name, "out"⟩ ⟨.moduleInstance, j, f.name⟩ := by
  obtain ⟨k, sent, hk, hname, hsending⟩ := hl.exists_sendingSide h hg
  rw [Relay.mem_replacements, hb, ← hname]
  refine and_congr_right fun _ => and_congr_right fun _ => ?_
  constructor
  · rintro ⟨⟨_, _, _, _⟩, htarget, rfl, rfl⟩
    obtain ⟨sender, hsender, hsent⟩ := Relay.mem_targets.mp htarget
    cases hsending.symm.trans hsender
    cases (Relay.of_mem_outBindings hsent).2.1
    obtain ⟨j, v, hrun, -, hkey', hdname, hsends⟩ :=
      (hl.mem_outBindings_iff h hnames hplain hf hd hy hk).mp hsent
    exact ⟨j, v, hrun, hkey', hdname, hsends⟩
  · rintro ⟨j, v, hrun, hkey', hdname, hsends⟩
    have hsent := (hl.mem_outBindings_iff h hnames hplain hf hd hy hk).mpr
      ⟨j, v, hrun, rfl, hkey', hdname, hsends⟩
    exact ⟨_, Relay.mem_targets.mpr ⟨_, hsending, hsent⟩, rfl, rfl⟩

/-- What stands in the place of inbound bindings goes through the dynamic triggers that the sender
feeds, to the operation under all instances to which these send on. -/
theorem IsEventLinked.exists_replacements_iff {c : Declared.Component}
    {S : String → String → Prop} (hfeeds : m.Feeds m₁ x key c S) (hc : c ∈ p.components) :
    (∃ b ∈ m₁.events.toList, Relay.isInbound b = true ∧
      ⟨x, key, ⟨.eventReceived, r⟩, key'⟩ ∈ Relay.replacements m₁ b) ↔
      ∃ j v, m.deployment.Runs d f.scope.moduleImplementation j v ∧ key' = j ++ ":" ++ v ∧ c = d ∧
        ∃ t ∈ c.dynamicTriggerInstances, S t.name "in" ∧
          c.Sends ⟨.dynamicTrigger, t.name, "out"⟩ ⟨.moduleInstance, j, f.name⟩ := by
  constructor
  · rintro ⟨b, hb, hin, hmem⟩
    obtain ⟨-, hkind, hoperation⟩ := Relay.isInbound_iff.mp hin
    obtain ⟨-, -, g, hg⟩ := exists_of_mem_bindings ((hl.mem_events b).mp hb)
    obtain ⟨_, _, ⟨_, n⟩, _⟩ := b
    cases hkind
    obtain ⟨group, hentry⟩ := Store.get?_eq_some_iff.mp hg
    obtain ⟨rfl, rfl, j, v, hrun, hkey', hdname, hsends⟩ :=
      (hl.mem_replacements_iff h hnames hplain hf hd hy rfl hentry).mp hmem
    -- what comes to the trigger and what it sends out are of the component of the trigger
    obtain ⟨operation, hinKey, hcname, hS⟩ := (hfeeds.mem_events hentry).mp hb
    obtain ⟨c', hc', hc'name, -, ⟨t, ht, htname⟩, -⟩ :=
      h.exists_trigger .dynamicTriggerReceived hentry LinkFamily.events.receivers fun _ => id
    have hinj := List.inj_on_of_nodup_map hnames
    cases hinj hc hd (hcname.trans hdname.symm)
    cases hinj hc' hc (hc'name.trans hcname.symm)
    -- without colons in them, the operation of the trigger can be read off the key
    have hplainName := (hplain _ hc).names t ht
    rw [htname] at hplainName
    rw [hinKey, Relay.operation?_triggerKey hplainName (hfeeds.plain hS)] at hoperation
    cases hoperation
    exact ⟨j, v, hrun, hkey', rfl, t, ht, htname ▸ hS, htname ▸ hsends⟩
  · rintro ⟨j, v, hrun, rfl, rfl, t, ht, hin, hout⟩
    obtain ⟨n, g, hg, hname⟩ := h.exists_receivingSide hc ht
    have hplainName : ':' ∉ g.name.toList := hname ▸ (hplain c hc).names t ht
    rw [← hname] at hin hout
    refine ⟨_, (hfeeds.mem_events hg).mpr ⟨"in", rfl, rfl, hin⟩, ?_,
      (hl.mem_replacements_iff h hnames hplain hf hd hy rfl hg).mpr
        ⟨rfl, rfl, j, v, hrun, rfl, rfl, hout⟩⟩
    exact Relay.isInbound_iff.mpr
      ⟨hfeeds.kind, rfl, Relay.operation?_triggerKey hplainName (by decide)⟩

end

variable {s r : Nat} {e f : Event} {c d : Declared.Component} {key key' : String}

/-- A module operation feeds the dynamic triggers to which links take its events. -/
theorem IsEventLinked.feeds_operation (key : String) (he : m.eventsSend.get? s = some e)
    (hc : c ∈ p.components) (hx : IsSenderOf s e c) :
    m.Feeds m₁ ⟨.eventSend, s⟩ key c fun t operation => ∃ i u,
      m.deployment.Runs c e.scope.moduleImplementation i u ∧ key = i ++ ":" ++ u ∧
        c.Sends ⟨.moduleInstance, i, e.name⟩ ⟨.dynamicTrigger, t, operation⟩ where
  kind := .inl rfl
  mem_events hg := by
    rw [hl.mem_events_toTrigger h hnames he hg hc hx]
    constructor
    · rintro ⟨i, u, operation, hrun, hkey, hkey', hcname, hsends⟩
      exact ⟨operation, hkey', hcname, i, u, hrun, hkey, hsends⟩
    · rintro ⟨operation, hkey', hcname, i, u, hrun, hkey, hsends⟩
      exact ⟨i, u, operation, hrun, hkey, hkey', hcname, hsends⟩
  plain := by
    rintro t operation ⟨i, u, -, -, hsends⟩
    exact (hplain c hc).of_sends_to hsends

/-- What is left bound between two operations after relaying. -/
theorem IsEventLinked.mem_relayed_iff (he : m.eventsSend.get? s = some e)
    (hf : m.eventsReceived.get? r = some f) (hc : c ∈ p.components) (hd : d ∈ p.components)
    (hx : IsSenderOf s e c) (hy : IsReceiverOf r f d) :
    ⟨⟨.eventSend, s⟩, key, ⟨.eventReceived, r⟩, key'⟩ ∈ m₁.relayed.toList ↔
      ∃ i u j v, m.deployment.Runs c e.scope.moduleImplementation i u ∧
        m.deployment.Runs d f.scope.moduleImplementation j v ∧
          key = i ++ ":" ++ u ∧ key' = j ++ ":" ++ v ∧
            p.Notifies c d ⟨.moduleInstance, i, e.name⟩ ⟨.moduleInstance, j, f.name⟩ u v := by
  have hsame : c.name = d.name → c = d := List.inj_on_of_nodup_map hnames hc hd
  have houtbound : Relay.isInbound
      ⟨⟨.eventSend, s⟩, key, ⟨.eventReceived, r⟩, key'⟩ = false := rfl
  rw [mem_relayed fun b _ _ c => hl.not_isInbound_of_mem_replacements, houtbound, hl.mem_events,
    mem_bindings_iff .eventSend .eventReceived he hf, mem_partyKeys_operations rfl rfl,
    hl.exists_replacements_iff h hnames hplain hf hd hy
      (hl.feeds_operation h hnames hplain key he hc hx) hc]
  have hdirect := m.deployment.exists_directKeys .plain hx hy hsame (k := (key, key'))
  have hwired := m.deployment.exists_wiredKeys .plain hx hy (k := (key, key'))
    (K := fun kind kind' => kind.isWired = true ∧ kind'.isWired = true)
  constructor
  · rintro (⟨h' | h', -⟩ | h')
    · obtain ⟨i, u, j, v, hi, hj, hk, hjoins⟩ := hdirect.mp h'
      obtain ⟨hkey, hkey'⟩ := Prod.mk.inj hk
      exact ⟨i, u, j, v, hi, hj, hkey, hkey', .inl hjoins⟩
    · obtain ⟨i, u, j, v, hi, hj, hk, near, far, ⟨hnear, hfar⟩, ho, hs, ht, hw⟩ := hwired.mp h'
      obtain ⟨hkey, hkey'⟩ := Prod.mk.inj hk
      have hjoins := (h.wires _ _).mp hw
      exact ⟨i, u, j, v, hi, hj, hkey, hkey',
        .inr (.inl ⟨near, far, hnear, hfar, ho, hs, ht, hjoins⟩)⟩
    · obtain ⟨j, v, hj, hkey', rfl, t, ht, ⟨i, u, hi, hkey, hin⟩, hout⟩ := h'
      exact ⟨i, u, j, v, hi, hj, hkey, hkey', .inr (.inr ⟨rfl, t, ht, hin, hout⟩)⟩
  · rintro ⟨i, u, j, v, hi, hj, rfl, rfl, hjoins | ⟨near, far, hnear, hfar, ho, hs, ht, hw⟩ |
      ⟨rfl, t, ht, hin, hout⟩⟩
    · exact .inl ⟨.inl (hdirect.mpr ⟨i, u, j, v, hi, hj, rfl, hjoins⟩), rfl⟩
    · exact .inl ⟨.inr (hwired.mpr ⟨i, u, j, v, hi, hj, rfl, near, far, ⟨hnear, hfar⟩, ho, hs, ht,
        (h.wires _ _).mpr hw⟩), rfl⟩
    · exact .inr ⟨j, v, hj, rfl, rfl, t, ht, ⟨i, u, hi, rfl, hin⟩, hout⟩

end

end Model

/-- A sender is bound to a receiver exactly under the keys of module instances of theirs of which
one reaches the other. -/
theorem Builder.Builds.contains_events_iff {b : Builder} {m : Model} (hb : b.Builds m)
    (hnames : (b.project.components.map (·.name)).Nodup)
    (hplain : ∀ c ∈ b.project.components, c.HasPlainTriggers) {s r : Nat} {e f : Event}
    (hs : m.eventsSend.get? s = some e) (hr : m.eventsReceived.get? r = some f) (sk rk : String) :
    m.events.contains ⟨⟨.eventSend, s⟩, sk, ⟨.eventReceived, r⟩, rk⟩ = true ↔
      ∃ c ∈ b.project.components, ∃ d ∈ b.project.components,
        c.name = e.scope.component ∧ d.name = f.scope.component ∧
          ∃ i u j v, m.deployment.Runs c e.scope.moduleImplementation i u ∧
            m.deployment.Runs d f.scope.moduleImplementation j v ∧
            sk = i ++ ":" ++ u ∧ rk = j ++ ":" ++ v ∧
              b.project.Notifies c d ⟨.moduleInstance, i, e.name⟩ ⟨.moduleInstance, j, f.name⟩
                u v := by
  obtain ⟨m₀, hm₀, _, _, _, _, rfl⟩ := hb.exists_linked
  dsimp only at hs hr ⊢
  obtain ⟨c, hc, hcname, hx⟩ := hm₀.exists_operation .eventSend hs
    LinkFamily.events.senders fun _ _ => id
  obtain ⟨d, hd, hdname, hy⟩ := hm₀.exists_operation .eventReceived hr
    LinkFamily.events.receivers fun _ _ => id
  rw [← BindingTable.mem_toList,
    hm₀.isEventLinked.mem_relayed_iff hm₀ hnames hplain hs hr hc hd hx hy]
  have hinj := List.inj_on_of_nodup_map hnames
  constructor
  · intro h
    exact ⟨c, hc, d, hd, hcname, hdname, h⟩
  · rintro ⟨c', hc', d', hd', hcname', hdname', h⟩
    cases hinj hc' hc (hcname'.trans hcname.symm)
    cases hinj hd' hd (hdname'.trans hdname.symm)
    exact h

/-! ## An event through a dynamic trigger -/

namespace Declared

/-- A component that sends itself an event through the dynamic trigger `delay`. -/
def delayingComponent : Component where
  name := "A"
  directory := "A"
  uses := []
  moduleTypes := [⟨"Ringing", { Operations.none with eventSent := [⟨"ring", []⟩] }, [], [], []⟩,
    ⟨"Hearing", { Operations.none with eventReceived := [⟨"hear", []⟩] }, [], [], []⟩]
  moduleImplementations := [⟨"ringing", "Ringing", "C"⟩, ⟨"hearing", "Hearing", "C"⟩]
  moduleInstances := [⟨"bell", "ringing", [], []⟩, ⟨"ear", "hearing", [], []⟩]
  triggerInstances := []
  dynamicTriggerInstances := [⟨"delay", []⟩]
  eventLinks := [
    ⟨.ofList [(.moduleInstance, [⟨"bell", "ring", none, none⟩])],
      .ofList [(.dynamicTrigger, [⟨"delay", "in", none, none⟩])]⟩,
    ⟨.ofList [(.dynamicTrigger, [⟨"delay", "out", none, none⟩])],
      .ofList [(.moduleInstance, [⟨"ear", "hear", none, none⟩])]⟩]
  requestLinks := []
  dataLinks := []

def delayingProject : Project where
  libraries := []
  components := [delayingComponent]
  deployment := ⟨[⟨"pd", [⟨"a", "bell"⟩, ⟨"a", "ear"⟩]⟩]⟩
  assembly := ⟨[⟨"a", "A", ∅⟩], []⟩

theorem delayingComponent_hasPlainTriggers : delayingComponent.HasPlainTriggers :=
  ⟨by decide, by decide⟩

end Declared

open Declared in
theorem Builder.Builds.contains_events_delayingProject :
    ∃ m, (Builder.new delayingProject).Builds m ∧
      (delayingProject.components.map (·.name)).Nodup ∧
      (∀ c ∈ delayingProject.components, c.HasPlainTriggers) ∧
      ∃ e f, m.eventsSend.get? 0 = some e ∧ m.eventsReceived.get? 0 = some f ∧
        m.events.contains ⟨⟨.eventSend, 0⟩, "bell:a", ⟨.eventReceived, 0⟩, "ear:a"⟩ = true := by
  have hplain : ∀ c ∈ delayingProject.components, c.HasPlainTriggers :=
    List.forall_mem_singleton.mpr delayingComponent_hasPlainTriggers
  refine ⟨_, ⟨_, _, rfl, rfl⟩, by decide, hplain, _, _, rfl, rfl, ?_⟩
  refine (contains_events_iff (b := Builder.new delayingProject) ⟨_, _, rfl, rfl⟩ (by decide) hplain
    rfl rfl "bell:a" "ear:a").mpr ?_
  refine ⟨delayingComponent, List.mem_cons_self, delayingComponent, List.mem_cons_self, rfl, rfl,
    "bell", "a", "ear", "a", ⟨by decide, by decide⟩, ⟨by decide, by decide⟩, rfl, rfl,
    .inr (.inr ⟨rfl, _, List.mem_cons_self, ?_, ?_⟩)⟩
  · exact ⟨_, List.mem_cons_self, by decide, by decide⟩
  · exact ⟨_, List.mem_cons_of_mem _ List.mem_cons_self, by decide, by decide⟩

end Ecoa
