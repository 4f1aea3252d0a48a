import Ecoa.Proofs.Linking.Delivery

/-!
# Events from outside the modules

What a module operation receives from senders that are no module operations: from code outside, from
triggers and from dynamic triggers of its own component. Relaying takes the events of code outside
through the dynamic triggers, and leaves what triggers send.
-/

namespace Ecoa

open EventLinking

namespace Declared

/-- How a sender that is no module operation comes to a port of the component, under its key: code
outside by a link or through a dynamic trigger, a trigger and the out side of a dynamic trigger by
a link. -/
def Component.Raises (c : Component) (receiver : Port) (key : String) :
    (kind : EntityKind) → Entity kind → Prop
  | .external, e => key = e.name ++ ":" ++ e.language.name ∧
      (c.SendsFromOutside e.name e.language receiver ∨
        ∃ t ∈ c.dynamicTriggerInstances,
          c.SendsFromOutside e.name e.language ⟨.dynamicTrigger, t.name, "in"⟩ ∧
            c.Sends ⟨.dynamicTrigger, t.name, "out"⟩ receiver)
  | .trigger, e => key = e.name ∧ ∃ operation, c.Sends ⟨.trigger, e.name, operation⟩ receiver
  | .dynamicTriggerSend, e => ∃ operation, key = e.name ++ ":" ++ operation ∧
      c.Sends ⟨.dynamicTrigger, e.name, operation⟩ receiver
  | _, _ => False

theorem Component.HasPlainTriggers.of_sendsFromOutside {c : Component} (h : c.HasPlainTriggers)
    {outside : String} {language : Language} {name operation : String}
    (hs : c.SendsFromOutside outside language ⟨.dynamicTrigger, name, operation⟩) :
    ':' ∉ operation.toList := by
  obtain ⟨l, hl, -, hr⟩ := hs
  exact h.operations l hl _ (List.mem_append_right _ hr) rfl

theorem Component.HasExternal.isExternal {c : Component} {e : External}
    (h : c.HasExternal (LinkFamily.events.senders c) e) (id : EntityId) :
    IsExternal ⟨id, e.component, e.links⟩ c e.name e.language := by
  refine ⟨h.component, fun a b => ?_, fun _ ha => ha.1⟩
  dsimp only
  rw [h.links]
  exact EndpointIndex.joins_selectExternal

theorem Component.HasTrigger.isTrigger {c : Component} {e : Trigger}
    (h : c.HasTrigger (LinkFamily.events.senders c) e) (id : EntityId) :
    IsTrigger ⟨id, e.component, e.links⟩ LinkFamily.events.senders c .trigger e.name := by
  refine ⟨h.component, fun a b => ?_, fun _ hp => hp.1⟩
  dsimp only
  rw [h.links]
  exact EndpointIndex.joins_selectInstance

end Declared

theorem EventLinking.externalKey_of {m : Model} {i : Nat} {e : External}
    (he : m.externals.get? i = some e) :
    externalKey m (.of .external i e) = e.name ++ ":" ++ e.language.name := by
  have hget : m.externals.get? (Party.of .external i e).id.index = some e := he
  rw [externalKey, hget, Option.map_some, Option.getD_some, External.key]

namespace Model

variable {m m₁ : Model} {p : Declared.Project}

/-- What is left bound to a module operation is found, or stands in the place of what is inbound. -/
theorem IsEventLinked.mem_relayed_received (hl : m.IsEventLinked m₁) {x : EntityId}
    {key key' : String} {r : Nat} :
    ⟨x, key, ⟨.eventReceived, r⟩, key'⟩ ∈ m₁.relayed.toList ↔
      ⟨x, key, ⟨.eventReceived, r⟩, key'⟩ ∈ m₁.events.toList ∨
        ∃ b ∈ m₁.events.toList, Relay.isInbound b = true ∧
          ⟨x, key, ⟨.eventReceived, r⟩, key'⟩ ∈ Relay.replacements m₁ b := by
  rw [mem_relayed fun b _ _ c => hl.not_isInbound_of_mem_replacements]
  refine or_congr_left (and_iff_left ?_)
  rw [Bool.eq_false_iff, ne_eq, Relay.isInbound_iff]
  rintro ⟨-, ⟨⟩, -⟩

/-- Only what modules and code outside send to a dynamic trigger is replaced. -/
theorem kind_of_exists_replacements {c : Binding EntityId}
    (h : ∃ b ∈ m₁.events.toList, Relay.isInbound b = true ∧ c ∈ Relay.replacements m₁ b) :
    c.sender.kind = .eventSend ∨ c.sender.kind = .external := by
  obtain ⟨b, -, hin, hmem⟩ := h
  rw [(Relay.mem_replacements.mp hmem).1]
  exact (Relay.isInbound_iff.mp hin).1

section

variable (hl : m.IsEventLinked m₁) (hnames : (p.components.map (·.name)).Nodup) {i r : Nat}
  {f : Event} {d : Declared.Component} (hf : m.eventsReceived.get? r = some f)
  (hd : d ∈ p.components) (hy : IsReceiverOf r f d) {key key' : String}

include hl hnames

/-- Code outside feeds the dynamic triggers to which links take its events. -/
theorem IsEventLinked.feeds_external (h : m.IsPopulated p)
    (hplain : ∀ c ∈ p.components, c.HasPlainTriggers) (key : String) {e : External}
    (he : m.externals.get? i = some e) {c : Declared.Component} (hc : c ∈ p.components)
    (hx : IsExternal (.of .external i e) c e.name e.language) :
    m.Feeds m₁ ⟨.external, i⟩ key c fun t operation =>
      key = e.name ++ ":" ++ e.language.name ∧
        c.SendsFromOutside e.name e.language ⟨.dynamicTrigger, t, operation⟩ where
  kind := .inr rfl
  mem_events {n group g key'} hg := by
    obtain ⟨c', hc', hname, -, -, hy⟩ := h.exists_trigger .dynamicTriggerReceived hg
      LinkFamily.events.receivers fun _ => id
    have hsame : c.name = c'.name → c = c' := List.inj_on_of_nodup_map hnames hc hc'
    rw [hl.mem_events, mem_bindings_iff .external .dynamicTriggerReceived he
      (Store.get?_eq_some_iff.mpr ⟨group, hg⟩)]
    refine (mem_partyKeys_externalToTrigger rfl hx rfl hy hsame).trans ?_
    rw [externalKey_of he]
    constructor
    · rintro ⟨operation, hk, rfl, hsends⟩
      obtain ⟨rfl, rfl⟩ := Prod.mk.inj hk
      exact ⟨operation, rfl, hname, rfl, hsends⟩
    · rintro ⟨operation, rfl, hcname, rfl, hsends⟩
      exact ⟨operation, rfl, hsame (hcname.trans hname.symm), hsends⟩
  plain hS := (hplain c hc).of_sendsFromOutside hS.2

include hf hd hy

/-- Under which keys code outside is bound to a module operation. -/
theorem IsEventLinked.mem_events_external {e : External} (he : m.externals.get? i = some e)
    {c : Declared.Component} (hc : c ∈ p.components)
    (hx : IsExternal (.of .external i e) c e.name e.language) :
    ⟨⟨.external, i⟩, key, ⟨.eventReceived, r⟩, key'⟩ ∈ m₁.events.toList ↔
      ∃ j v, m.deployment.Runs d f.scope.moduleImplementation j v ∧ key' = j ++ ":" ++ v ∧ c = d ∧
        key = e.name ++ ":" ++ e.language.name ∧
          c.SendsFromOutside e.name e.language ⟨.moduleInstance, j, f.name⟩ := by
  rw [hl.mem_events, mem_bindings_iff .external .eventReceived he hf]
  refine (mem_partyKeys_external rfl hx rfl hy (List.inj_on_of_nodup_map hnames hc hd)).trans ?_
  rw [externalKey_of he]
  constructor
  · rintro ⟨j, v, hrun, hk, rfl, hsends⟩
    obtain ⟨rfl, rfl⟩ := Prod.mk.inj hk
    exact ⟨j, v, hrun, rfl, rfl, rfl, hsends⟩
  · rintro ⟨j, v, hrun, rfl, rfl, rfl, hsends⟩
    exact ⟨j, v, hrun, rfl, rfl, hsends⟩

/-- Under which keys a trigger is bound to a module operation. -/
theorem IsEventLinked.mem_events_trigger {e : Trigger} (he : m.triggers.get? i = some e)
    {c : Declared.Component} (hc : c ∈ p.components)
    (hx : IsTrigger (.of .trigger i e) LinkFamily.events.senders c .trigger e.name) :
    ⟨⟨.trigger, i⟩, key, ⟨.eventReceived, r⟩, key'⟩ ∈ m₁.events.toList ↔
      ∃ j v, m.deployment.Runs d f.scope.moduleImplementation j v ∧ key' = j ++ ":" ++ v ∧ c = d ∧
        key = e.name ∧
          ∃ operation, c.Sends ⟨.trigger, e.name, operation⟩ ⟨.moduleInstance, j, f.name⟩ := by
  rw [hl.mem_events, mem_bindings_iff .trigger .eventReceived he hf]
  refine (mem_partyKeys_trigger rfl hx rfl hy (List.inj_on_of_nodup_map hnames hc hd)).trans ?_
  constructor
  · rintro ⟨operation, j, v, hrun, hk, rfl, hsends⟩
    obtain ⟨rfl, rfl⟩ := Prod.mk.inj hk
    exact ⟨j, v, hrun, rfl, rfl, rfl, operation, hsends⟩
  · rintro ⟨j, v, hrun, rfl, rfl, rfl, operation, hsends⟩
    exact ⟨operation, j, v, hrun, rfl, rfl, hsends⟩

/-- What is left bound to a module operation, after relaying, from a sender that is stored and no
module operation. -/
theorem IsEventLinked.mem_relayed_iff_raises (h : m.IsPopulated p)
    (hplain : ∀ c ∈ p.components, c.HasPlainTriggers) {x : EntityId} (hx : x.kind ≠ .eventSend)
    {e : Entity x.kind} (he : m.entity? x = some e) :
    ⟨x, key, ⟨.eventReceived, r⟩, key'⟩ ∈ m₁.relayed.toList ↔
      ∃ j v, m.deployment.Runs d f.scope.moduleImplementation j v ∧ key' = j ++ ":" ++ v ∧
        e.component x.kind = d.name ∧ d.Raises ⟨.moduleInstance, j, f.name⟩ key x.kind e := by
  rw [hl.mem_relayed_received]
  have hnone : x.kind ≠ .external → ¬ ∃ b ∈ m₁.events.toList, Relay.isInbound b = true ∧
      ⟨x, key, ⟨.eventReceived, r⟩, key'⟩ ∈ Relay.replacements m₁ b :=
    fun hkind hex => (kind_of_exists_replacements hex).elim hx hkind
  have hinj := List.inj_on_of_nodup_map hnames
  obtain ⟨kind, i⟩ := x
  cases kind with
  | external =>
    obtain ⟨c, hc, g, hdeclared⟩ := h.exists_declares .external he
    have hexternal := hdeclared.isExternal ⟨.external, i⟩
    rw [hl.mem_events_external hnames hf hd hy he hc hexternal, hl.exists_replacements_iff h hnames
      hplain hf hd hy (hl.feeds_external hnames h hplain key he hc hexternal) hc]
    constructor
    · rintro (⟨j, v, hrun, hkey', rfl, hkey, hsends⟩ |
        ⟨j, v, hrun, hkey', rfl, t, ht, ⟨hkey, hin⟩, hout⟩)
      · exact ⟨j, v, hrun, hkey', hdeclared.component, hkey, .inl hsends⟩
      · exact ⟨j, v, hrun, hkey', hdeclared.component, hkey, .inr ⟨t, ht, hin, hout⟩⟩
    · rintro ⟨j, v, hrun, hkey', hname, hkey, hsends⟩
      cases hinj hc hd (hdeclared.component.symm.trans hname)
      rcases hsends with hsends | ⟨t, ht, hin, hout⟩
      · exact .inl ⟨j, v, hrun, hkey', rfl, hkey, hsends⟩
      · exact .inr ⟨j, v, hrun, hkey', rfl, t, ht, ⟨hkey, hin⟩, hout⟩
  | trigger =>
    obtain ⟨c, hc, g, hdeclared⟩ := h.exists_declares .trigger he
    rw [or_iff_left (hnone (by rintro ⟨⟩)), hl.mem_events_trigger hnames hf hd hy he hc
      (hdeclared.isTrigger ⟨.trigger, i⟩)]
    constructor
    · rintro ⟨j, v, hrun, hkey', rfl, hkey, hsends⟩
      exact ⟨j, v, hrun, hkey', hdeclared.component, hkey, hsends⟩
    · rintro ⟨j, v, hrun, hkey', hname, hkey, hsends⟩
      cases hinj hc hd (hdeclared.component.symm.trans hname)
      exact ⟨j, v, hrun, hkey', rfl, hkey, hsends⟩
  | dynamicTriggerSend =>
    obtain ⟨group, hentry⟩ := Store.get?_eq_some_iff.mp he
    obtain ⟨-, -, -, hgroup, -, -⟩ := h.exists_trigger .dynamicTriggerSend hentry
      LinkFamily.events.senders fun _ => id
    rw [or_iff_left (hnone (by rintro ⟨⟩)), hl.mem_events_fromTrigger h hnames hentry hf hd hy]
    constructor
    · rintro ⟨operation, j, v, hrun, hkey, hkey', hname, hsends⟩
      exact ⟨j, v, hrun, hkey', hgroup.trans hname.symm, operation, hkey, hsends⟩
    · rintro ⟨j, v, hrun, hkey', hname, operation, hkey, hsends⟩
      exact ⟨operation, j, v, hrun, hkey, hkey', hname.symm.trans hgroup, hsends⟩
  | eventSend => exact absurd rfl hx
  | eventReceived | requestSend | requestReceived | dataRead | dataWritten | property | pinfo
  | dynamicTriggerReceived =>
    -- senders of these kinds are in no phase
    refine iff_of_false (or_iff_left (hnone (by rintro ⟨⟩)) |>.not.mpr fun hmem => ?_) ?_
    · have hphase := (exists_of_mem_bindings ((hl.mem_events _).mp hmem)).1
      simp [phases] at hphase
    · rintro ⟨j, v, -, -, -, ⟨⟩⟩

end

/-- Only what is stored is bound. -/
theorem IsEventLinked.exists_entity (hl : m.IsEventLinked m₁) {x : EntityId} {key key' : String}
    {r : Nat} (hmem : ⟨x, key, ⟨.eventReceived, r⟩, key'⟩ ∈ m₁.relayed.toList) :
    ∃ e, m.entity? x = some e := by
  rcases hl.mem_relayed_received.mp hmem with hfound | ⟨b, hb, -, hreplaces⟩
  · exact (exists_of_mem_bindings ((hl.mem_events _).mp hfound)).2.1
  · obtain ⟨rfl, -⟩ := Relay.mem_replacements.mp hreplaces
    exact (exists_of_mem_bindings ((hl.mem_events _).mp hb)).2.1

/-- The externals of a component that are built are all that its links name. -/
theorem IsPopulated.exists_external (h : m.IsPopulated p) {c : Declared.Component}
    (hc : c ∈ p.components) {operation : String} {language : Language} {q : Port}
    (hsends : c.SendsFromOutside operation language q) :
    ∃ i e, m.externals.get? i = some e ∧ e.component = c.name ∧ e.name = operation ∧
      e.language = language := by
  obtain ⟨found, layout, hfound, hholds⟩ := h.entries c hc
  obtain ⟨a, b, hab, ha, -⟩ := EndpointIndex.exists_joins_external.mpr hsends
  obtain ⟨e, hname, hlanguage, he⟩ := hfound.exists_external hab ha
  obtain ⟨i, hi⟩ := Array.mem_iff_getElem?.mp (hholds _ he)
  exact ⟨i, e, Store.get?_eq_some_iff.mpr ⟨_, hi⟩, (hfound.declares he).component, hname,
    hlanguage⟩

/-- It does not matter for this which inputs code outside has. -/
theorem exists_raises_iff {inputs : Nat → External → List Parameter}
    (hexternals : m₁.externals = m.externals.mapWithIndex fun i e =>
      { e with inputs := inputs i e })
    (htriggers : m₁.triggers = m.triggers)
    (hdynamic : m₁.dynamicTriggersSend = m.dynamicTriggersSend) {x : EntityId}
    {c : Declared.Component} {q : Port} {key : String} :
    (∃ e, m₁.entity? x = some e ∧ e.component x.kind = c.name ∧ c.Raises q key x.kind e) ↔
      ∃ e, m.entity? x = some e ∧ e.component x.kind = c.name ∧ c.Raises q key x.kind e := by
  obtain ⟨kind, i⟩ := x
  cases kind with
  | external =>
    have hget : m₁.entity? ⟨.external, i⟩ =
        (m.entity? ⟨.external, i⟩).map fun e => { e with inputs := inputs i e } := by
      simp only [entity?, store, hexternals, Store.get?_mapWithIndex]
    rw [hget]
    constructor
    · rintro ⟨_, hmapped, hraises⟩
      obtain ⟨e, he, rfl⟩ := Option.map_eq_some_iff.mp hmapped
      exact ⟨e, he, hraises⟩
    · rintro ⟨e, he, hraises⟩
      exact ⟨_, Option.map_eq_some_iff.mpr ⟨e, he, rfl⟩, hraises⟩
  | trigger => simp only [entity?, store, htriggers]
  | dynamicTriggerSend => simp only [entity?, store, hdynamic]
  | _ => simp only [Declared.Component.Raises, and_false, exists_false]

end Model

/-- Each operation and language of code outside that a link of a component names has its external,
and a module operation is bound to senders that are no module operations exactly under the keys of
its module instances to which these come by the links of the component. -/
theorem Builder.Builds.contains_events_outside_iff {b : Builder} {m : Model} (hb : b.Builds m)
    (hnames : (b.project.components.map (·.name)).Nodup)
    (hplain : ∀ c ∈ b.project.components, c.HasPlainTriggers) :
    (∀ c ∈ b.project.components, ∀ operation language receiver,
      c.SendsFromOutside operation language receiver →
        ∃ i e, m.externals.get? i = some e ∧ e.component = c.name ∧ e.name = operation ∧
          e.language = language) ∧
    ∀ x r f, x.kind ≠ .eventSend → m.eventsReceived.get? r = some f → ∀ sk rk,
      (m.events.contains ⟨x, sk, ⟨.eventReceived, r⟩, rk⟩ = true ↔
        ∃ c ∈ b.project.components, c.name = f.scope.component ∧
          ∃ j v, m.deployment.Runs c f.scope.moduleImplementation j v ∧ rk = j ++ ":" ++ v ∧
            ∃ e, m.entity? x = some e ∧ e.component x.kind = c.name ∧
              c.Raises ⟨.moduleInstance, j, f.name⟩ sk x.kind e) := by
  obtain ⟨m₀, hm₀, hm⟩ := hb.exists_steps
  have hexternals : m.externals = m₀.externals.mapWithIndex fun i e =>
      { e with inputs := externalInputs m₀ (allMatches m₀) i e } := by
    rw [hm, Model.linkEvents_fst]
  have hentity : ∀ {x q key} {c : Declared.Component},
      (∃ e, m.entity? x = some e ∧ e.component x.kind = c.name ∧ c.Raises q key x.kind e) ↔
        ∃ e, m₀.entity? x = some e ∧ e.component x.kind = c.name ∧ c.Raises q key x.kind e :=
    Model.exists_raises_iff hexternals (by rw [hm]) (by rw [hm])
  simp only [hentity]
  refine ⟨fun c hc operation language receiver hsends => ?_, fun x r f hx hr sk rk => ?_⟩
  · obtain ⟨i, e, he, hcomponent, hname, hlanguage⟩ := hm₀.exists_external hc hsends
    refine ⟨i, { e with inputs := externalInputs m₀ (allMatches m₀) i e }, ?_, hcomponent, hname,
      hlanguage⟩
    rw [hexternals, Store.get?_mapWithIndex, he, Option.map_some]
  · subst hm
    dsimp only at hr ⊢
    have hl := hm₀.isEventLinked
    obtain ⟨d, hd, hdname, hy⟩ := hm₀.exists_operation .eventReceived hr
      LinkFamily.events.receivers fun _ _ => id
    rw [← BindingTable.mem_toList]
    constructor
    · intro hmem
      obtain ⟨e, he⟩ := hl.exists_entity hmem
      obtain ⟨j, v, hrun, hrk, hcomponent, hraises⟩ :=
        (hl.mem_relayed_iff_raises hnames hr hd hy hm₀ hplain hx he).mp hmem
      exact ⟨d, hd, hdname, j, v, hrun, hrk, e, he, hcomponent, hraises⟩
    · rintro ⟨c, hc, hcname, j, v, hrun, hrk, e, he, hcomponent, hraises⟩
      cases List.inj_on_of_nodup_map hnames hc hd (hcname.trans hdname.symm)
      exact (hl.mem_relayed_iff_raises hnames hr hd hy hm₀ hplain hx he).mpr
        ⟨j, v, hrun, hrk, hcomponent, hraises⟩

/-! ## An event of code outside through a dynamic trigger -/

namespace Declared

/-- A component in which code outside, written in C, sends an event through the dynamic trigger
`delay`. -/
def alarmedComponent : Component where
  name := "A"
  directory := "A"
  uses := []
  moduleTypes := [⟨"Hearing", { Operations.none with eventReceived := [⟨"hear", []⟩] }, [], [], []⟩]
  moduleImplementations := [⟨"hearing", "Hearing", "C"⟩]
  moduleInstances := [⟨"ear", "hearing", [], []⟩]
  triggerInstances := []
  dynamicTriggerInstances := [⟨"delay", []⟩]
  eventLinks := [
    ⟨.ofList [(.external, [⟨"siren", "ring", none, some "C"⟩])],
      .ofList [(.dynamicTrigger, [⟨"delay", "in", none, none⟩])]⟩,
    ⟨.ofList [(.dynamicTrigger, [⟨"delay", "out", none, none⟩])],
      .ofList [(.moduleInstance, [⟨"ear", "hear", none, none⟩])]⟩]
  requestLinks := []
  dataLinks := []

def alarmedProject : Project where
  libraries := []
  components := [alarmedComponent]
  deployment := ⟨[⟨"pd", [⟨"a", "ear"⟩]⟩]⟩
  assembly := ⟨[⟨"a", "A", ∅⟩], []⟩

theorem alarmedComponent_hasPlainTriggers : alarmedComponent.HasPlainTriggers :=
  ⟨by decide, by decide⟩

theorem alarmedComponent_sendsFromOutside :
    alarmedComponent.SendsFromOutside "ring" .c ⟨.dynamicTrigger, "delay", "in"⟩ :=
  ⟨_, List.mem_cons_self, ⟨_, List.mem_cons_self, rfl, _, List.mem_cons_self, rfl, by decide⟩,
    by decide⟩

end Declared

open Declared in
theorem Builder.Builds.contains_events_alarmedProject :
    ∃ m, (Builder.new alarmedProject).Builds m ∧
      (alarmedProject.components.map (·.name)).Nodup ∧
      (∀ c ∈ alarmedProject.components, c.HasPlainTriggers) ∧
      alarmedComponent.SendsFromOutside "ring" .c ⟨.dynamicTrigger, "delay", "in"⟩ ∧
      (∃ i e, m.externals.get? i = some e ∧ e.name = "ring" ∧ e.language = .c) ∧
      ∃ f, m.eventsReceived.get? 0 = some f ∧
        m.events.contains ⟨⟨.external, 0⟩, "ring:c", ⟨.eventReceived, 0⟩, "ear:a"⟩ = true := by
  have hplain : ∀ c ∈ alarmedProject.components, c.HasPlainTriggers :=
    List.forall_mem_singleton.mpr alarmedComponent_hasPlainTriggers
  have hb : (Builder.new alarmedProject).Builds _ := ⟨_, _, rfl, rfl⟩
  obtain ⟨hexternals, hevents⟩ := contains_events_outside_iff hb (by decide) hplain
  obtain ⟨i, e, he, -, hname, hlanguage⟩ := hexternals alarmedComponent List.mem_cons_self _ _ _
    alarmedComponent_sendsFromOutside
  refine ⟨_, hb, by decide, hplain, alarmedComponent_sendsFromOutside,
    ⟨i, e, he, hname, hlanguage⟩, _, rfl, ?_⟩
  refine (hevents ⟨.external, 0⟩ 0 _ nofun rfl "ring:c" "ear:a").mpr ?_
  refine ⟨alarmedComponent, List.mem_cons_self, rfl, "ear", "a", ⟨by decide, by decide⟩, rfl, _,
    rfl, rfl, by decide, .inr ⟨_, List.mem_cons_self, alarmedComponent_sendsFromOutside, ?_⟩⟩
  exact ⟨_, List.mem_cons_of_mem _ List.mem_cons_self, by decide, by decide⟩

end Ecoa
