import Ecoa.Proofs.Component.Externals
import Ecoa.Proofs.Linking.Parties

/-!
# Which event bindings are found

What linking finds between two entities before relaying: between module operations directly and
over wires, from triggers and code outside to module operations, and to and from dynamic triggers.
-/

namespace Ecoa

namespace EventLinking

variable {m : Model}

/-- The keys that all pairs of declarations of two parties give. -/
def partyKeys (m : Model) (x y : Party) : List (String × String) :=
  ((LinkPair.all x.links y.links).filterMap (matchPair m x y)).flatMap (·.keys)

theorem mem_partyKeys {x y : Party} {k : String × String} :
    k ∈ partyKeys m x y ↔ ∃ p ∈ LinkPair.all x.links y.links, ∃ route,
      route? x.id.kind y.id.kind p.senderDeclared.kind p.receiverDeclared.kind = some route ∧
        isAdmitted route x y p = true ∧ k ∈ routeKeys m route x y p := by
  simp only [partyKeys, matchPair, List.mem_flatMap, List.mem_filterMap, Option.bind_eq_some_iff,
    Option.ite_none_right_eq_some, Option.some.injEq]
  constructor
  · rintro ⟨_, ⟨p, hp, route, hroute, hadmitted, rfl⟩, hk⟩
    exact ⟨p, hp, route, hroute, hadmitted, hk⟩
  · rintro ⟨p, hp, route, hroute, hadmitted, hk⟩
    exact ⟨_, ⟨p, hp, route, hroute, hadmitted, rfl⟩, hk⟩

theorem ids_of_matchPair {x y : Party} {p : LinkPair} {q : Match} (h : matchPair m x y p = some q) :
    q.sender = x.id ∧ q.receiver = y.id := by
  obtain ⟨route, -, h⟩ := Option.bind_eq_some_iff.mp h
  obtain ⟨-, h⟩ := Option.ite_none_right_eq_some.mp h
  cases h
  exact ⟨rfl, rfl⟩

/-- A binding is found in a phase, between two parties of its kinds. -/
theorem mem_bindings {b : Binding EntityId} :
    b ∈ (allMatches m).flatMap (·.bindings) ↔ ∃ phase ∈ phases, ∃ x ∈ m.parties phase.1,
      ∃ y ∈ m.parties phase.2, ∃ k ∈ partyKeys m x y, b = ⟨x.id, k.1, y.id, k.2⟩ := by
  simp only [allMatches, phaseMatches, partyKeys, Match.bindings, bindingsUnder, List.mem_flatMap,
    List.mem_map]
  constructor
  · rintro ⟨q, ⟨phase, hphase, x, hx, y, hy, hq⟩, k, hk, rfl⟩
    obtain ⟨p, -, hmatch⟩ := List.mem_filterMap.mp hq
    obtain ⟨hs, hr⟩ := ids_of_matchPair hmatch
    exact ⟨phase, hphase, x, hx, y, hy, k, ⟨q, hq, hk⟩, by rw [hs, hr]⟩
  · rintro ⟨phase, hphase, x, hx, y, hy, k, ⟨q, hq, hk⟩, rfl⟩
    obtain ⟨p, -, hmatch⟩ := List.mem_filterMap.mp hq
    obtain ⟨hs, hr⟩ := ids_of_matchPair hmatch
    exact ⟨q, ⟨phase, hphase, x, hx, y, hy, hq⟩, k, hk, by rw [hs, hr]⟩

theorem mem_phases_of_route? {kind kind' : EntityKind} {a b : EndpointKind} {route : Route}
    (h : route? kind kind' a b = some route) : (kind, kind') ∈ phases := by
  unfold route? at h
  split at h
  case h_7 => cases h
  all_goals decide

/-- The keys under which one entity is found bound to another. -/
theorem mem_bindings_iff (kind kind' : EntityKind) {s r : Nat} {e : Entity kind} {f : Entity kind'}
    (hs : (m.store kind).get? s = some e) (hr : (m.store kind').get? r = some f) {k k' : String} :
    ⟨⟨kind, s⟩, k, ⟨kind', r⟩, k'⟩ ∈ (allMatches m).flatMap (·.bindings) ↔
      (k, k') ∈ partyKeys m (.of kind s e) (.of kind' r f) := by
  rw [mem_bindings]
  constructor
  · rintro ⟨phase, -, x, hx, y, hy, k, hk, heq⟩
    obtain ⟨hxid, rfl, hyid, rfl⟩ := Binding.mk.inj heq
    obtain ⟨i, e', he', rfl⟩ := Model.mem_parties.mp hx
    obtain ⟨j, f', hf', rfl⟩ := Model.mem_parties.mp hy
    cases hxid
    cases hyid
    cases hs.symm.trans he'
    cases hr.symm.trans hf'
    exact hk
  · intro hk
    obtain ⟨p, -, route, hroute, -⟩ := mem_partyKeys.mp hk
    exact ⟨_, mem_phases_of_route? hroute, _, Model.mem_parties.mpr ⟨s, e, hs, rfl⟩, _,
      Model.mem_parties.mpr ⟨r, f, hr, rfl⟩, _, hk, rfl⟩

/-- Whatever is found bound is stored, and of two kinds that are compared. -/
theorem exists_of_mem_bindings {b : Binding EntityId}
    (h : b ∈ (allMatches m).flatMap (·.bindings)) :
    (b.sender.kind, b.receiver.kind) ∈ phases ∧
      (∃ e, (m.store b.sender.kind).get? b.sender.index = some e) ∧
        ∃ f, (m.store b.receiver.kind).get? b.receiver.index = some f := by
  obtain ⟨⟨kind, kind'⟩, hphase, x, hx, y, hy, k, -, rfl⟩ := mem_bindings.mp h
  obtain ⟨i, e, he, rfl⟩ := Model.mem_parties.mp hx
  obtain ⟨j, f, hf, rfl⟩ := Model.mem_parties.mp hy
  exact ⟨hphase, ⟨e, he⟩, ⟨f, hf⟩⟩

/-- Dynamic triggers send to module operations alone. -/
theorem receiver_kind_of_mem_bindings {b : Binding EntityId}
    (h : b ∈ (allMatches m).flatMap (·.bindings)) (hsender : b.sender.kind = .dynamicTriggerSend) :
    b.receiver.kind = .eventReceived := by
  have hphase := (exists_of_mem_bindings h).1
  rw [hsender] at hphase
  simpa [phases] using hphase

theorem isAdmitted_iff {route : Route} {x y : Party} {p : LinkPair} :
    isAdmitted route x y p = true ↔
      route = .wired ∨ (p.isMutual = true ∧ x.component = y.component) := by
  simp only [isAdmitted, Bool.decide_or, Bool.decide_and, Bool.or_eq_true, Bool.and_eq_true,
    decide_eq_true_eq]

variable {x y : Party} {c d : Declared.Component} {k : String × String}

/-! ## Between module operations -/

theorem mem_partyKeys_operations (hx : x.id.kind = .eventSend) (hy : y.id.kind = .eventReceived) :
    k ∈ partyKeys m x y ↔
      (∃ p ∈ LinkPair.all x.links y.links, (p.senderDeclared.kind = .moduleInstance ∧
        p.receiverDeclared.kind = .moduleInstance) ∧ p.isMutual = true ∧
          k ∈ m.deployment.directKeys .plain x y p) ∨
      ∃ p ∈ LinkPair.all x.links y.links, (p.senderDeclared.kind.isWired = true ∧
        p.receiverDeclared.kind.isWired = true) ∧ k ∈ m.deployment.wiredKeys .plain x y p := by
  rw [mem_partyKeys, hx, hy]
  simp only [route?, isAdmitted_iff]
  constructor
  · rintro ⟨p, hp, route, hroute, hadmitted, hk⟩
    split at hroute
    · next hkinds =>
      cases hroute
      exact .inl ⟨p, hp, hkinds, (hadmitted.resolve_left nofun).1, hk⟩
    · split at hroute
      · next hkinds =>
        cases hroute
        exact .inr ⟨p, hp, hkinds, hk⟩
      · cases hroute
  · rintro (⟨p, hp, hkinds, hm, hk⟩ | ⟨p, hp, hkinds, hk⟩)
    · exact ⟨p, hp, .direct, if_pos hkinds,
        .inr ⟨hm, (Deployment.mem_directKeys.mp hk).1⟩, hk⟩
    · refine ⟨p, hp, .wired, ?_, .inl rfl, hk⟩
      rw [if_neg, if_pos hkinds]
      rintro ⟨h, -⟩
      rw [h] at hkinds
      exact Bool.false_ne_true hkinds.1

/-! ## Within one component -/

/-- Kinds of entity with one route between them, off the wires, are bound by links of one component
and under the keys that the route gives to the endpoints that these join. -/
theorem mem_partyKeys_of_route {kind kind' : EndpointKind} {A B : EndpointId → Prop} {route : Route}
    (hroute : ∀ a b r,
      route? x.id.kind y.id.kind a b = some r ↔ (a = kind' ∧ b = kind) ∧ r = route)
    (hwired : route ≠ .wired) (hx : x.Owns LinkFamily.events.senders c kind A)
    (hy : y.Owns LinkFamily.events.receivers d kind' B) (hsame : c.name = d.name → c = d)
    {K : EndpointId → EndpointId → Prop} (hkeys : ∀ p : LinkPair,
      k ∈ routeKeys m route x y p ↔ K p.senderOwn.id p.receiverOwn.id) :
    k ∈ partyKeys m x y ↔
      c = d ∧ ∃ a b, A a ∧ B b ∧ (LinkFamily.events.senders c).Joins a b ∧ K a b := by
  rw [mem_partyKeys]
  simp only [isAdmitted_iff]
  refine Iff.trans ?_ (hx.exists_mutual hy hsame (R := K))
  constructor
  · rintro ⟨p, hp, r, hr, hadmitted, hk⟩
    obtain ⟨hdeclared, rfl⟩ := (hroute _ _ r).mp hr
    obtain ⟨hm, hcomponent⟩ := hadmitted.resolve_left hwired
    exact ⟨p, hp, hdeclared, hm, hcomponent, (hkeys p).mp hk⟩
  · rintro ⟨p, hp, hdeclared, hm, hcomponent, hK⟩
    exact ⟨p, hp, route, (hroute _ _ route).mpr ⟨hdeclared, rfl⟩, .inr ⟨hm, hcomponent⟩,
      (hkeys p).mpr hK⟩

variable {implementation name t : String}

/-- The sender has one key for each of its endpoints: it is bound under it to the operation under
all instances that a link joins to that endpoint. -/
theorem mem_partyKeys_toOperation {kind : EndpointKind} {A : EndpointId → Prop} (route : Route)
    (keyOf : EndpointId → String) {key : Endpoint → String} (hkey : ∀ e, key e = keyOf e.id)
    (hroute : ∀ a b r,
      route? x.id.kind y.id.kind a b = some r ↔ (a = .moduleInstance ∧ b = kind) ∧ r = route)
    (hwired : route ≠ .wired)
    (hkeys : ∀ p : LinkPair, routeKeys m route x y p =
      (m.deployment.keysOf .plain y.component p.receiverOwn).map (key p.senderOwn, ·))
    (hx : x.Owns LinkFamily.events.senders c kind A)
    (hy : y.IsOperation LinkFamily.events.receivers d implementation name)
    (hsame : c.name = d.name → c = d) :
    k ∈ partyKeys m x y ↔ ∃ j v, m.deployment.Runs d implementation j v ∧
      k.2 = j ++ ":" ++ v ∧ c = d ∧ ∃ a b, (LinkFamily.events.senders c).Joins a b ∧
        (A a ∧ k.1 = keyOf a) ∧ b.port = ⟨.moduleInstance, j, name⟩ := by
  have hmem : ∀ p : LinkPair, k ∈ routeKeys m route x y p ↔
      k.1 = keyOf p.senderOwn.id ∧
        m.deployment.HasKey .plain y.component p.receiverOwn.id.port k.2 := by
    intro p
    rw [hkeys, List.mem_map, ← hkey]
    constructor
    · rintro ⟨key', hkey', rfl⟩
      exact ⟨rfl, Deployment.mem_keysOf.mp hkey'⟩
    · rintro ⟨hsender, hreceiver⟩
      exact ⟨k.2, Deployment.mem_keysOf.mpr hreceiver, Prod.ext hsender.symm rfl⟩
  rw [mem_partyKeys_of_route hroute hwired hx hy.owns hsame (K := fun a b =>
    k.1 = keyOf a ∧ m.deployment.HasKey .plain y.component b.port k.2) hmem, hy.component]
  constructor
  · rintro ⟨rfl, a, b, ha, ⟨j, hj, hb⟩, hjoins, hs, hr⟩
    rw [hb] at hr
    obtain ⟨v, hv, hr⟩ := hr
    exact ⟨j, v, ⟨hj, hv⟩, hr, rfl, a, b, hjoins, ⟨ha, hs⟩, hb⟩
  · rintro ⟨j, v, ⟨hj, hv⟩, hr, rfl, a, b, hjoins, ⟨ha, hs⟩, hb⟩
    exact ⟨rfl, a, b, ha, ⟨j, hj, hb⟩, hjoins, hs, hb ▸ ⟨v, hv, hr⟩⟩

/-- The party is one side of a trigger, plain or dynamic, of the component. -/
abbrev IsTrigger (x : Party) (side : Declared.Component → Links) (c : Declared.Component)
    (kind : EndpointKind) (name : String) : Prop :=
  x.IsOf side c kind fun p => p.kind = kind ∧ p.instanceName = name

/-- The bindings of a trigger, plain or dynamic, to a module operation. -/
theorem mem_partyKeys_ofTrigger {kind : EndpointKind} (route : Route) (keyOf : Port → String)
    {key : Endpoint → String} (hkey : ∀ e, key e = keyOf e.id.port)
    (hroute : ∀ a b r,
      route? x.id.kind y.id.kind a b = some r ↔ (a = .moduleInstance ∧ b = kind) ∧ r = route)
    (hwired : route ≠ .wired)
    (hkeys : ∀ p : LinkPair, routeKeys m route x y p =
      (m.deployment.keysOf .plain y.component p.receiverOwn).map (key p.senderOwn, ·))
    (hx : IsTrigger x LinkFamily.events.senders c kind t)
    (hy : y.IsOperation LinkFamily.events.receivers d implementation name)
    (hsame : c.name = d.name → c = d) :
    k ∈ partyKeys m x y ↔ ∃ operation j v, m.deployment.Runs d implementation j v ∧
      k = (keyOf ⟨kind, t, operation⟩, j ++ ":" ++ v) ∧ c = d ∧
        c.Sends ⟨kind, t, operation⟩ ⟨.moduleInstance, j, name⟩ := by
  rw [mem_partyKeys_toOperation route (fun a => keyOf a.port) hkey hroute hwired hkeys hx.owns
    hy hsame]
  constructor
  · rintro ⟨j, v, hrun, hr, rfl, a, b, hjoins, ⟨⟨ha, ht⟩, hs⟩, hb⟩
    have hport : a.port = ⟨kind, t, a.operation⟩ := EndpointId.port_eq_iff.mpr ⟨ha, ht, rfl⟩
    rw [hport] at hs
    exact ⟨a.operation, j, v, hrun, Prod.ext hs hr, rfl,
      (LinkFamily.events.exists_joins c _ _).mp ⟨a, b, hjoins, hport, hb⟩⟩
  · rintro ⟨operation, j, v, hrun, rfl, rfl, hsends⟩
    obtain ⟨a, b, hjoins, ha, hb⟩ := (LinkFamily.events.exists_joins c _ _).mpr hsends
    exact ⟨j, v, hrun, rfl, rfl, a, b, hjoins, by simp [ha], hb⟩

/-- The bindings of a trigger to a module operation. -/
theorem mem_partyKeys_trigger (hxk : x.id.kind = .trigger)
    (hx : IsTrigger x LinkFamily.events.senders c .trigger t) (hyk : y.id.kind = .eventReceived)
    (hy : y.IsOperation LinkFamily.events.receivers d implementation name)
    (hsame : c.name = d.name → c = d) :
    k ∈ partyKeys m x y ↔ ∃ operation j v, m.deployment.Runs d implementation j v ∧
      k = (t, j ++ ":" ++ v) ∧ c = d ∧
        c.Sends ⟨.trigger, t, operation⟩ ⟨.moduleInstance, j, name⟩ := by
  refine mem_partyKeys_ofTrigger .trigger Port.instanceName (fun _ => rfl) ?_ nofun
    (fun _ => rfl) hx hy hsame
  intro a b r
  rw [hxk, hyk]
  simp [route?, eq_comm]

/-- The party is an operation of code outside, in one language. -/
abbrev IsExternal (x : Party) (c : Declared.Component) (operation : String) (language : Language) :
    Prop :=
  x.Owns LinkFamily.events.senders c .external fun a => a.IsExternal operation language

variable {outside : String} {language : Language}

/-- The bindings of code outside to a module operation. -/
theorem mem_partyKeys_external (hxk : x.id.kind = .external) (hx : IsExternal x c outside language)
    (hyk : y.id.kind = .eventReceived)
    (hy : y.IsOperation LinkFamily.events.receivers d implementation name)
    (hsame : c.name = d.name → c = d) :
    k ∈ partyKeys m x y ↔ ∃ j v, m.deployment.Runs d implementation j v ∧
      k = (externalKey m x, j ++ ":" ++ v) ∧ c = d ∧
        c.SendsFromOutside outside language ⟨.moduleInstance, j, name⟩ := by
  have hroute : ∀ a b r, route? x.id.kind y.id.kind a b = some r ↔
      (a = .moduleInstance ∧ b = .external) ∧ r = .external := by
    intro a b r
    rw [hxk, hyk]
    simp [route?, eq_comm]
  rw [mem_partyKeys_toOperation .external (fun _ => externalKey m x) (fun _ => rfl) hroute nofun
    (fun _ => rfl) hx hy hsame]
  constructor
  · rintro ⟨j, v, hrun, hr, rfl, a, b, hjoins, ⟨ha, hs⟩, hb⟩
    exact ⟨j, v, hrun, Prod.ext hs hr, rfl,
      EndpointIndex.exists_joins_external.mp ⟨a, b, hjoins, ha, hb⟩⟩
  · rintro ⟨j, v, hrun, rfl, rfl, hsends⟩
    obtain ⟨a, b, hjoins, ha, hb⟩ := EndpointIndex.exists_joins_external.mpr hsends
    exact ⟨j, v, hrun, rfl, rfl, a, b, hjoins, ⟨ha, rfl⟩, hb⟩

/-! ## Dynamic triggers -/

/-- The party is one side of a dynamic trigger of the component. -/
abbrev IsDynamicTrigger (x : Party) (side : Declared.Component → Links) (c : Declared.Component)
    (name : String) : Prop :=
  IsTrigger x side c .dynamicTrigger name

/-- The bindings of a dynamic trigger to a module operation. -/
theorem mem_partyKeys_fromTrigger (hxk : x.id.kind = .dynamicTriggerSend)
    (hx : IsDynamicTrigger x LinkFamily.events.senders c t)
    (hyk : y.id.kind = .eventReceived)
    (hy : y.IsOperation LinkFamily.events.receivers d implementation name)
    (hsame : c.name = d.name → c = d) :
    k ∈ partyKeys m x y ↔ ∃ operation j v, m.deployment.Runs d implementation j v ∧
      k = (t ++ ":" ++ operation, j ++ ":" ++ v) ∧ c = d ∧
        c.Sends ⟨.dynamicTrigger, t, operation⟩ ⟨.moduleInstance, j, name⟩ := by
  refine mem_partyKeys_ofTrigger .dynamicTriggerOut
    (fun p => p.instanceName ++ ":" ++ p.operation) (fun _ => rfl) ?_ nofun (fun _ => rfl) hx hy
    hsame
  intro a b r
  rw [hxk, hyk]
  simp [route?, eq_comm]

/-- The bindings of a module operation to a dynamic trigger. -/
theorem mem_partyKeys_toTrigger (hxk : x.id.kind = .eventSend)
    (hx : x.IsOperation LinkFamily.events.senders c implementation name)
    (hyk : y.id.kind = .dynamicTriggerReceived)
    (hy : IsDynamicTrigger y LinkFamily.events.receivers d t) (hsame : c.name = d.name → c = d) :
    k ∈ partyKeys m x y ↔ ∃ i u operation, m.deployment.Runs c implementation i u ∧
      k = (i ++ ":" ++ u, t ++ ":" ++ operation) ∧ c = d ∧
        c.Sends ⟨.moduleInstance, i, name⟩ ⟨.dynamicTrigger, t, operation⟩ := by
  have hroute : ∀ a b r, route? x.id.kind y.id.kind a b = some r ↔
      (a = .dynamicTrigger ∧ b = .moduleInstance) ∧ r = .toDynamicTrigger := by
    intro a b r
    rw [hxk, hyk]
    simp [route?, eq_comm]
  have hkeys : ∀ p : LinkPair, k ∈ routeKeys m .toDynamicTrigger x y p ↔
      m.deployment.HasKey .plain x.component p.senderOwn.id.port k.1 ∧
        triggerKey p.receiverOwn = k.2 := by
    intro p
    simp only [routeKeys, List.mem_map, ← Deployment.mem_keysOf]
    constructor
    · rintro ⟨key, hkey, rfl⟩
      exact ⟨hkey, rfl⟩
    · rintro ⟨hkey, htrigger⟩
      exact ⟨k.1, hkey, Prod.ext rfl htrigger⟩
  rw [mem_partyKeys_of_route hroute nofun hx.owns hy.owns hsame (K := fun a b =>
    m.deployment.HasKey .plain x.component a.port k.1 ∧
      b.instanceName ++ ":" ++ b.operation = k.2) hkeys, hx.component]
  constructor
  · rintro ⟨rfl, a, b, ⟨i, hi, ha⟩, ⟨hb, rfl⟩, hjoins, hs, hr⟩
    rw [ha] at hs
    obtain ⟨u, hu, hs⟩ := hs
    exact ⟨i, u, b.operation, ⟨hi, hu⟩, Prod.ext hs hr.symm, rfl,
      (LinkFamily.events.exists_joins c _ _).mp
        ⟨a, b, hjoins, ha, EndpointId.port_eq_iff.mpr ⟨hb, rfl, rfl⟩⟩⟩
  · rintro ⟨i, u, operation, ⟨hi, hu⟩, rfl, rfl, hsends⟩
    obtain ⟨a, b, hjoins, ha, hb⟩ := (LinkFamily.events.exists_joins c _ _).mpr hsends
    obtain ⟨-, hname, hoperation⟩ := EndpointId.port_eq_iff.mp hb
    refine ⟨rfl, a, b, ⟨i, hi, ha⟩, by simp [hb], hjoins, ha ▸ ⟨u, hu, rfl⟩, ?_⟩
    rw [hname, hoperation]

/-- The bindings of code outside to a dynamic trigger. -/
theorem mem_partyKeys_externalToTrigger (hxk : x.id.kind = .external)
    (hx : IsExternal x c outside language) (hyk : y.id.kind = .dynamicTriggerReceived)
    (hy : IsDynamicTrigger y LinkFamily.events.receivers d t) (hsame : c.name = d.name → c = d) :
    k ∈ partyKeys m x y ↔ ∃ operation, k = (externalKey m x, t ++ ":" ++ operation) ∧ c = d ∧
      c.SendsFromOutside outside language ⟨.dynamicTrigger, t, operation⟩ := by
  have hroute : ∀ a b r, route? x.id.kind y.id.kind a b = some r ↔
      (a = .dynamicTrigger ∧ b = .external) ∧ r = .externalToDynamicTrigger := by
    intro a b r
    rw [hxk, hyk]
    simp [route?, eq_comm]
  have hkeys : ∀ p : LinkPair, k ∈ routeKeys m .externalToDynamicTrigger x y p ↔
      k = (externalKey m x, triggerKey p.receiverOwn) :=
    fun _ => List.mem_singleton
  rw [mem_partyKeys_of_route hroute nofun hx hy.owns hsame (K := fun _ b =>
    k = (externalKey m x, b.instanceName ++ ":" ++ b.operation)) hkeys]
  constructor
  · rintro ⟨rfl, a, b, ha, ⟨hb, rfl⟩, hjoins, hk⟩
    exact ⟨b.operation, hk, rfl, EndpointIndex.exists_joins_external.mp
      ⟨a, b, hjoins, ha, EndpointId.port_eq_iff.mpr ⟨hb, rfl, rfl⟩⟩⟩
  · rintro ⟨operation, rfl, rfl, hsends⟩
    obtain ⟨a, b, hjoins, ha, hb⟩ := EndpointIndex.exists_joins_external.mpr hsends
    obtain ⟨hkind, rfl, rfl⟩ := EndpointId.port_eq_iff.mp hb
    exact ⟨rfl, a, b, ha, ⟨hkind, rfl⟩, hjoins, rfl⟩

end EventLinking

end Ecoa
