import Mathlib.Data.List.Pairwise
import Mathlib.Order.Bounds.Defs
import Ecoa.Proofs.Linking.Events
import Ecoa.Proofs.Linking.Steps

/-!
# The inputs of code outside

An external is declared without inputs and takes those of the first receiver to which it is bound
before relaying: of module operations by their numbers, and only without one of dynamic triggers by
theirs. What linking finds for one sender comes in this order (`pairwise_allMatches`), whatever the
order of endpoints and links, so that the first match that has keys is the first receiver.
-/

namespace Ecoa

/-- Of a list in some order, the first element that is looked for comes before all others. -/
theorem eq_or_rel_of_find? {α : Type} {R : α → α → Prop} {l : List α} {q : α → Bool} {a b : α}
    (h : l.Pairwise R) (ha : l.find? q = some a) (hb : b ∈ l) (hq : q b = true) :
    a = b ∨ R a b := by
  obtain ⟨-, before, after, rfl, hbefore⟩ := List.find?_eq_some_iff_append.mp ha
  rcases List.mem_append.mp hb with hb | hb
  · exact absurd hq (by simpa using hbefore b hb)
  · rcases List.mem_cons.mp hb with rfl | hb
    · exact .inl rfl
    · exact .inr ((List.pairwise_cons.mp (List.pairwise_append.mp h).2.1).1 b hb)

namespace EntityId

/-- Kind by kind, and within a kind by number, the one does not come after the other. -/
def NotAfter (x y : EntityId) : Prop :=
  x.kind.number < y.kind.number ∨ x.kind = y.kind ∧ x.index ≤ y.index

theorem NotAfter.refl (x : EntityId) : x.NotAfter x := .inr ⟨rfl, Nat.le_refl _⟩

theorem NotAfter.antisymm {x y : EntityId} (h : x.NotAfter y) (h' : y.NotAfter x) : x = y := by
  obtain ⟨kind, i⟩ := x
  obtain ⟨kind', j⟩ := y
  unfold NotAfter at h h'
  dsimp only at h h'
  rcases h with hlt | ⟨rfl, hle⟩
  · rcases h' with hlt' | ⟨rfl, -⟩
    · omega
    · exact absurd hlt (Nat.lt_irrefl _)
  · rcases h' with hlt' | ⟨-, hle'⟩
    · exact absurd hlt' (Nat.lt_irrefl _)
    · rw [Nat.le_antisymm hle hle']

end EntityId

/-- The table binds the one entity to the other, under whichever keys. -/
def BindingTable.Binds {ι : Type} [DecidableEq ι] (t : BindingTable ι) (x y : ι) : Prop :=
  ∃ sk rk, t.contains ⟨x, sk, y, rk⟩ = true

/-- The numbers of the entities of a kind to which an entity is bound. -/
def BindingTable.boundNumbers (t : BindingTable EntityId) (x : EntityId) (kind : EntityKind) :
    Set Nat :=
  {r | t.Binds x ⟨kind, r⟩}

/-- The endpoints declare each other, with what is opposite of these kinds. -/
def LinkPair.Matches (p : LinkPair) (senderDeclared receiverDeclared : EndpointKind) : Prop :=
  p.isMutual = true ∧ p.senderDeclared.kind = senderDeclared ∧
    p.receiverDeclared.kind = receiverDeclared

instance (p : LinkPair) (a b : EndpointKind) : Decidable (p.Matches a b) :=
  inferInstanceAs (Decidable (_ ∧ _ ∧ _))

namespace Model

/-- The inputs that an external takes: those of the first module operation to which it is bound,
without one those of the first dynamic trigger, and none without either. -/
structure SuppliesInputs (m : Model) (bound : BindingTable EntityId) (i : Nat)
    (inputs : List Parameter) : Prop where
  received : ∀ r, IsLeast (bound.boundNumbers ⟨.external, i⟩ .eventReceived) r →
    ∃ f, m.eventsReceived.get? r = some f ∧ inputs = f.inputs
  triggered : (∀ r, r ∉ bound.boundNumbers ⟨.external, i⟩ .eventReceived) →
    ∀ r, IsLeast (bound.boundNumbers ⟨.external, i⟩ .dynamicTriggerReceived) r →
      ∃ t, m.dynamicTriggersReceived.get? r = some t ∧ inputs = t.parameters
  unbound : (∀ r, r ∉ bound.boundNumbers ⟨.external, i⟩ .eventReceived) →
    (∀ r, r ∉ bound.boundNumbers ⟨.external, i⟩ .dynamicTriggerReceived) → inputs = []

/-- The entities of a kind come by number. -/
theorem pairwise_parties (m : Model) (kind : EntityKind) :
    (m.parties kind).Pairwise (·.id.index < ·.id.index) := by
  have hnumbers : (m.parties kind).map (·.id.index) =
      List.range' 0 (m.store kind).entries.toList.length := by
    rw [← List.zipIdx_map_snd, parties, Store.numbered, List.map_map, List.map_map]
    rfl
  rw [← List.pairwise_map, hnumbers]
  exact List.pairwise_lt_range'

end Model

namespace EventLinking

variable {m : Model}

theorem mem_phaseMatches {phase : EntityKind × EntityKind} {q : Match}
    (h : q ∈ phaseMatches m phase) :
    q.sender.kind = phase.1 ∧ q.receiver.kind = phase.2 := by
  unfold phaseMatches at h
  simp only [List.mem_flatMap, List.mem_filterMap] at h
  obtain ⟨x, hx, y, hy, p, -, hq⟩ := h
  obtain ⟨i, e, -, rfl⟩ := Model.mem_parties.mp hx
  obtain ⟨j, f, -, rfl⟩ := Model.mem_parties.mp hy
  obtain ⟨hs, hr⟩ := ids_of_matchPair hq
  exact ⟨hs ▸ rfl, hr ▸ rfl⟩

/-- Within a phase, what is found for one sender comes in the order of the receivers. -/
theorem pairwise_phaseMatches (m : Model) (phase : EntityKind × EntityKind) :
    (phaseMatches m phase).Pairwise fun a b =>
      a.sender = b.sender → a.receiver.NotAfter b.receiver := by
  have hids : ∀ {x y : Party} {q : Match},
      q ∈ (LinkPair.all x.links y.links).filterMap (matchPair m x y) →
        q.sender = x.id ∧ q.receiver = y.id := by
    intro x y q hq
    obtain ⟨p, -, hp⟩ := List.mem_filterMap.mp hq
    exact ids_of_matchPair hp
  unfold phaseMatches
  dsimp only
  rw [List.pairwise_flatMap]
  refine ⟨fun x _ => ?_, ?_⟩
  · rw [List.pairwise_flatMap]
    refine ⟨fun y _ => ?_, ?_⟩
    · refine List.pairwise_of_forall_mem_list fun a ha b hb _ => ?_
      rw [(hids ha).2, (hids hb).2]
      exact .refl _
    · refine (m.pairwise_parties phase.2).imp_of_mem fun {y y'} hy hy' hlt a ha b hb _ => ?_
      rw [(hids ha).2, (hids hb).2]
      obtain ⟨j, f, -, rfl⟩ := Model.mem_parties.mp hy
      obtain ⟨j', f', -, rfl⟩ := Model.mem_parties.mp hy'
      exact .inr ⟨rfl, Nat.le_of_lt hlt⟩
  · -- different senders
    refine (m.pairwise_parties phase.1).imp fun {x x'} hlt a ha b hb hsender => ?_
    obtain ⟨y, -, ha⟩ := List.mem_flatMap.mp ha
    obtain ⟨y', -, hb⟩ := List.mem_flatMap.mp hb
    rw [(hids ha).1, (hids hb).1] at hsender
    rw [hsender] at hlt
    exact absurd hlt (Nat.lt_irrefl _)

/-- What is found for one sender comes in the order of the receivers. -/
theorem pairwise_allMatches (m : Model) :
    (allMatches m).Pairwise fun a b =>
      a.sender = b.sender → a.receiver.NotAfter b.receiver := by
  have hphases : phases.Pairwise fun p q => p.1 = q.1 → p.2.number < q.2.number := by decide
  unfold allMatches
  rw [List.pairwise_flatMap]
  refine ⟨fun phase _ => pairwise_phaseMatches m phase, ?_⟩
  refine hphases.imp fun {p q} hlt a ha b hb hsender => .inl ?_
  obtain ⟨has, har⟩ := mem_phaseMatches ha
  obtain ⟨hbs, hbr⟩ := mem_phaseMatches hb
  rw [har, hbr]
  exact hlt (has.symm.trans ((congrArg EntityId.kind hsender).trans hbs))

theorem contains_linkEvents (hempty : m.events = .empty) {b : Binding EntityId} :
    m.linkEvents.1.events.contains b = true ↔ b ∈ (allMatches m).flatMap (·.bindings) :=
  BindingTable.mem_toList.symm.trans (m.mem_toList_linkEvents hempty)

/-- An entity is bound to another when some match of theirs has keys. -/
theorem binds_linkEvents_iff (hempty : m.events = .empty) {x y : EntityId} :
    m.linkEvents.1.events.Binds x y ↔
      ∃ q ∈ allMatches m, q.sender = x ∧ q.receiver = y ∧ q.keys ≠ [] := by
  simp only [BindingTable.Binds, contains_linkEvents hempty, List.mem_flatMap, Match.bindings,
    bindingsUnder, List.mem_map]
  constructor
  · rintro ⟨sk, rk, q, hq, k, hk, heq⟩
    cases heq
    exact ⟨q, hq, rfl, rfl, List.ne_nil_of_mem hk⟩
  · rintro ⟨q, hq, rfl, rfl, hkeys⟩
    obtain ⟨k, hk⟩ := List.exists_mem_of_ne_nil _ hkeys
    exact ⟨k.1, k.2, q, hq, k, hk, rfl⟩

/-- Code outside is bound to module operations and dynamic triggers that are stored. -/
theorem exists_of_binds_external (hempty : m.events = .empty) {i : Nat} {y : EntityId}
    (h : m.linkEvents.1.events.Binds ⟨.external, i⟩ y) :
    (y.kind = .eventReceived ∨ y.kind = .dynamicTriggerReceived) ∧
      ∃ f, (m.store y.kind).get? y.index = some f := by
  obtain ⟨sk, rk, hbound⟩ := h
  obtain ⟨hphase, -, hstored⟩ := exists_of_mem_bindings ((contains_linkEvents hempty).mp hbound)
  exact ⟨by simpa [phases] using hphase, hstored⟩

theorem isFrom_iff {x : EntityId} {q : Match} :
    (q.sender = x && !q.keys.isEmpty) = true ↔ q.sender = x ∧ q.keys ≠ [] := by
  rw [Bool.and_eq_true, decide_eq_true_eq, Bool.not_eq_true', List.isEmpty_eq_false_iff]

/-- An external without inputs takes those of the first entity to which it is bound. -/
theorem externalInputs_of_first (hempty : m.events = .empty) {i : Nat} {e : External}
    (he : e.inputs = []) {y : EntityId} (hy : m.linkEvents.1.events.Binds ⟨.external, i⟩ y)
    (hfirst : ∀ z, m.linkEvents.1.events.Binds ⟨.external, i⟩ z → y.NotAfter z) :
    externalInputs m (allMatches m) i e = (receiverInputs m y).getD [] := by
  obtain ⟨q, hq, hsender, rfl, hkeys⟩ := (binds_linkEvents_iff hempty).mp hy
  have hsought := isFrom_iff.mpr ⟨hsender, hkeys⟩
  rw [externalInputs, he, if_pos (List.isEmpty_iff.mpr rfl)]
  cases hfound : (allMatches m).find? fun x => x.sender = ⟨.external, i⟩ && !x.keys.isEmpty with
  | none => exact absurd hsought (List.find?_eq_none.mp hfound q hq)
  | some first =>
    have hfirstSought := List.find?_some hfound
    obtain ⟨hfirstSender, hfirstKeys⟩ := isFrom_iff.mp hfirstSought
    have hbefore : first.receiver.NotAfter q.receiver := by
      rcases eq_or_rel_of_find? (pairwise_allMatches m) hfound hq hsought with rfl | hrel
      · exact .refl _
      · exact hrel (hfirstSender.trans hsender.symm)
    have hafter := hfirst first.receiver ((binds_linkEvents_iff hempty).mpr
      ⟨first, List.mem_of_find?_eq_some hfound, hfirstSender, rfl, hfirstKeys⟩)
    dsimp only
    rw [hbefore.antisymm hafter]

theorem externalInputs_of_unbound (hempty : m.events = .empty) {i : Nat} {e : External}
    (he : e.inputs = []) (h : ∀ z, ¬ m.linkEvents.1.events.Binds ⟨.external, i⟩ z) :
    externalInputs m (allMatches m) i e = [] := by
  have hnone : (allMatches m).find? (fun x => x.sender = ⟨.external, i⟩ && !x.keys.isEmpty) =
      none := by
    rw [List.find?_eq_none]
    intro q hq hsought
    obtain ⟨hsender, hkeys⟩ := isFrom_iff.mp hsought
    exact h q.receiver ((binds_linkEvents_iff hempty).mpr ⟨q, hq, hsender, rfl, hkeys⟩)
  rw [externalInputs, he, if_pos (List.isEmpty_iff.mpr rfl), hnone]

theorem suppliesInputs_linkEvents (hempty : m.events = .empty) {i : Nat} {e : External}
    (he : e.inputs = []) :
    m.SuppliesInputs m.linkEvents.1.events i (externalInputs m (allMatches m) i e) where
  received r hleast := by
    have hfirst : ∀ z, m.linkEvents.1.events.Binds ⟨.external, i⟩ z →
        (⟨.eventReceived, r⟩ : EntityId).NotAfter z := by
      rintro ⟨kind, j⟩ hz
      rcases (exists_of_binds_external hempty hz).1 with rfl | rfl
      · exact .inr ⟨rfl, hleast.2 hz⟩
      · exact .inl (Nat.lt_of_sub_eq_succ rfl)
    obtain ⟨-, f, hf⟩ := exists_of_binds_external hempty hleast.1
    refine ⟨f, hf, ?_⟩
    have hinputs : receiverInputs m ⟨.eventReceived, r⟩ = some f.inputs :=
      congrArg (Option.map Event.inputs) hf
    rw [externalInputs_of_first hempty he hleast.1 hfirst, hinputs, Option.getD_some]
  triggered hnone r hleast := by
    have hfirst : ∀ z, m.linkEvents.1.events.Binds ⟨.external, i⟩ z →
        (⟨.dynamicTriggerReceived, r⟩ : EntityId).NotAfter z := by
      rintro ⟨kind, j⟩ hz
      rcases (exists_of_binds_external hempty hz).1 with rfl | rfl
      · exact absurd hz (hnone j)
      · exact .inr ⟨rfl, hleast.2 hz⟩
    obtain ⟨-, t, ht⟩ := exists_of_binds_external hempty hleast.1
    refine ⟨t, ht, ?_⟩
    have hinputs : receiverInputs m ⟨.dynamicTriggerReceived, r⟩ = some t.parameters :=
      congrArg (Option.map DynamicTrigger.parameters) ht
    rw [externalInputs_of_first hempty he hleast.1 hfirst, hinputs, Option.getD_some]
  unbound hnone hnone' := by
    refine externalInputs_of_unbound hempty he ?_
    rintro ⟨kind, j⟩ hz
    rcases (exists_of_binds_external hempty hz).1 with rfl | rfl
    · exact hnone j hz
    · exact hnone' j hz

/-! ## What code outside is bound to -/

theorem binds_iff_partyKeys (hempty : m.events = .empty) (kind kind' : EntityKind) {s r : Nat}
    {e : Entity kind} {f : Entity kind'} (hs : (m.store kind).get? s = some e)
    (hr : (m.store kind').get? r = some f) :
    m.linkEvents.1.events.Binds ⟨kind, s⟩ ⟨kind', r⟩ ↔
      ∃ k, k ∈ partyKeys m (.of kind s e) (.of kind' r f) := by
  simp only [BindingTable.Binds, contains_linkEvents hempty, mem_bindings_iff kind kind' hs hr,
    Prod.exists]

/-- Parties with one route between them, off the wires, have keys when they declare each other
within one component and the route gives keys to the endpoints. -/
theorem exists_mem_partyKeys {x y : Party} {kind kind' : EndpointKind} (route : Route)
    (hroute : ∀ a b r,
      route? x.id.kind y.id.kind a b = some r ↔ (a = kind' ∧ b = kind) ∧ r = route)
    (hwired : route ≠ .wired) :
    (∃ k, k ∈ partyKeys m x y) ↔ x.component = y.component ∧
      ∃ p ∈ LinkPair.all x.links y.links, p.Matches kind' kind ∧
        routeKeys m route x y p ≠ [] := by
  simp only [mem_partyKeys, isAdmitted_iff, hroute, LinkPair.Matches]
  constructor
  · rintro ⟨k, p, hp, _, ⟨hdeclared, rfl⟩, hadmitted, hk⟩
    obtain ⟨hm, hcomponent⟩ := hadmitted.resolve_left hwired
    exact ⟨hcomponent, p, hp, ⟨hm, hdeclared⟩, List.ne_nil_of_mem hk⟩
  · rintro ⟨hcomponent, p, hp, ⟨hm, hdeclared⟩, hkeys⟩
    obtain ⟨k, hk⟩ := List.exists_mem_of_ne_nil _ hkeys
    exact ⟨k, p, hp, route, ⟨hdeclared, rfl⟩, .inr ⟨hm, hcomponent⟩, hk⟩

/-- Code outside is bound to a module operation when they declare each other within one component
and the instance of the operation is deployed. -/
theorem binds_external_received (hempty : m.events = .empty) {i r : Nat} {e : External} {f : Event}
    (he : m.externals.get? i = some e) (hf : m.eventsReceived.get? r = some f) :
    m.linkEvents.1.events.Binds ⟨.external, i⟩ ⟨.eventReceived, r⟩ ↔
      e.component = f.scope.component ∧ ∃ p ∈ LinkPair.all e.links f.links,
        p.Matches .moduleInstance .external ∧
          m.deployment.componentNames f.scope.component p.receiverOwn.instanceName ≠ [] := by
  have hroute : ∀ a b route, route? .external .eventReceived a b = some route ↔
      (a = .moduleInstance ∧ b = .external) ∧ route = .external := by
    intro a b route
    simp [route?, eq_comm]
  rw [binds_iff_partyKeys hempty .external .eventReceived he hf]
  refine (exists_mem_partyKeys .external hroute (by decide)).trans ?_
  simp only [routeKeys, Deployment.keysOf, ne_eq, List.map_eq_nil_iff]
  rfl

/-- Code outside is bound to a dynamic trigger when they declare each other within one component,
deployed or not. -/
theorem binds_external_triggered (hempty : m.events = .empty) {i r : Nat} {e : External}
    {t : DynamicTrigger} (he : m.externals.get? i = some e)
    (ht : m.dynamicTriggersReceived.get? r = some t) :
    m.linkEvents.1.events.Binds ⟨.external, i⟩ ⟨.dynamicTriggerReceived, r⟩ ↔
      e.component = t.component ∧ ∃ p ∈ LinkPair.all e.links t.links,
        p.Matches .dynamicTrigger .external := by
  have hroute : ∀ a b route, route? .external .dynamicTriggerReceived a b = some route ↔
      (a = .dynamicTrigger ∧ b = .external) ∧ route = .externalToDynamicTrigger := by
    intro a b route
    simp [route?, eq_comm]
  rw [binds_iff_partyKeys hempty .external .dynamicTriggerReceived he ht]
  refine (exists_mem_partyKeys .externalToDynamicTrigger hroute (by decide)).trans ?_
  simp only [routeKeys, ne_eq, List.cons_ne_nil, not_false_eq_true, and_true]
  rfl

end EventLinking

open EventLinking

/-- Each external has the inputs of the first module operation to which it is bound before
relaying, without one those of the first dynamic trigger, and none without either. It is bound to
the module operations of its component with which it declares a link and whose instance is deployed,
and to the dynamic triggers with which it declares one. -/
theorem Builder.Builds.externals_take_first_inputs {b : Builder} {m : Model} (hb : b.Builds m) :
    ∃ m₀ : Model, m₀.IsFilled b.project b.config.layout ∧
      let unrelayed := m₀.linkEvents.1.linkRequests.1.linkData.1
      m = unrelayed.relay.1 ∧ ∀ i e, m.externals.get? i = some e →
        m.SuppliesInputs unrelayed.events i e.inputs ∧
        (∀ r f, m.eventsReceived.get? r = some f →
          (r ∈ unrelayed.events.boundNumbers ⟨.external, i⟩ .eventReceived ↔
            e.component = f.scope.component ∧ ∃ p ∈ LinkPair.all e.links f.links,
              p.Matches .moduleInstance .external ∧
                m.deployment.componentNames f.scope.component p.receiverOwn.instanceName ≠ [])) ∧
        ∀ r t, m.dynamicTriggersReceived.get? r = some t →
          (r ∈ unrelayed.events.boundNumbers ⟨.external, i⟩ .dynamicTriggerReceived ↔
            e.component = t.component ∧ ∃ p ∈ LinkPair.all e.links t.links,
              p.Matches .dynamicTrigger .external) := by
  obtain ⟨m₀, hm₀, hm⟩ := hb.exists_filled
  refine ⟨m₀, hm₀, hm.trans m₀.link_fst, fun i e he => ?_⟩
  have hevents : m₀.linkEvents.1.linkRequests.1.linkData.1.events = m₀.linkEvents.1.events := by
    rw [Model.linkData_fst, Model.linkRequests_fst]
  rw [hevents]
  rw [hm, Model.link_fst_eq] at he ⊢
  dsimp only at he ⊢
  rw [Model.linkEvents_fst, Store.get?_mapWithIndex] at he
  obtain ⟨e₀, he₀, rfl⟩ := Option.map_eq_some_iff.mp he
  obtain ⟨c, -, g, hdeclared⟩ := hm₀.isPopulated.exists_declares .external he₀
  have hsupplies := suppliesInputs_linkEvents hm₀.events (i := i) hdeclared.inputs
  refine ⟨⟨hsupplies.received, hsupplies.triggered, hsupplies.unbound⟩, fun r f hf => ?_,
    fun r t ht => ?_⟩
  · exact binds_external_received hm₀.events (e := e₀) he₀ hf
  · exact binds_external_triggered hm₀.events (e := e₀) he₀ ht

/-! ## A receiver that is not deployed, and one without inputs -/

namespace Declared

/-- A component in which code outside sends an event to three modules, of which the second takes no
inputs. -/
def warnedComponent : Component where
  name := "A"
  directory := "A"
  uses := []
  moduleTypes := [
    ⟨"Hearing", { Operations.none with eventReceived := [⟨"hear", [⟨"pitch", "int32"⟩]⟩] },
      [], [], []⟩,
    ⟨"Waking", { Operations.none with eventReceived := [⟨"wake", []⟩] }, [], [], []⟩,
    ⟨"Noting", { Operations.none with eventReceived := [⟨"note", [⟨"pitch", "int32"⟩]⟩] },
      [], [], []⟩]
  moduleImplementations :=
    [⟨"hearing", "Hearing", "C"⟩, ⟨"waking", "Waking", "C"⟩, ⟨"noting", "Noting", "C"⟩]
  moduleInstances := [⟨"ear", "hearing", [], []⟩, ⟨"sleeper", "waking", [], []⟩,
    ⟨"log", "noting", [], []⟩]
  triggerInstances := []
  dynamicTriggerInstances := []
  eventLinks := [
    ⟨.ofList [(.external, [⟨"siren", "ring", none, some "C"⟩])],
      .ofList [(.moduleInstance, [⟨"ear", "hear", none, none⟩, ⟨"sleeper", "wake", none, none⟩,
        ⟨"log", "note", none, none⟩])]⟩]
  requestLinks := []
  dataLinks := []

/-- The first of the three modules is not deployed. -/
def warnedProject : Project where
  libraries := []
  components := [warnedComponent]
  deployment := ⟨[⟨"pd", [⟨"a", "sleeper"⟩, ⟨"a", "log"⟩]⟩]⟩
  assembly := ⟨[⟨"a", "A", ∅⟩], []⟩

end Declared

open Declared in
theorem Builder.Builds.externals_take_first_inputs_warnedProject :
    ∃ m unrelayed : Model, (Builder.new warnedProject).Builds m ∧ m = unrelayed.relay.1 ∧
      IsLeast (unrelayed.events.boundNumbers ⟨.external, 0⟩ .eventReceived) 1 ∧
      2 ∈ unrelayed.events.boundNumbers ⟨.external, 0⟩ .eventReceived ∧
      ∃ e, m.externals.get? 0 = some e ∧ e.inputs = [] ∧
        ∃ f, m.eventsReceived.get? 2 = some f ∧ f.inputs ≠ [] := by
  have hb : (Builder.new warnedProject).Builds _ := ⟨_, _, rfl, rfl⟩
  obtain ⟨m₀, -, hm, hall⟩ := externals_take_first_inputs hb
  generalize m₀.linkEvents.1.linkRequests.1.linkData.1 = unrelayed at hm hall
  obtain ⟨hsupplies, hreceived, -⟩ := hall 0 _ rfl
  have hear := mt (hreceived 0 _ rfl).mp (by decide +kernel)
  have wake := (hreceived 1 _ rfl).mpr (by decide +kernel)
  have note := (hreceived 2 _ rfl).mpr (by decide +kernel)
  have hleast : IsLeast (unrelayed.events.boundNumbers ⟨.external, 0⟩ .eventReceived) 1 := by
    refine ⟨wake, fun r hr => ?_⟩
    by_contra hlt
    obtain rfl : r = 0 := by omega
    exact hear hr
  obtain ⟨f, hf, hinputs⟩ := hsupplies.received 1 hleast
  cases hf
  exact ⟨_, _, hb, hm, hleast, note, _, rfl, hinputs, _, rfl, nofun⟩

end Ecoa
