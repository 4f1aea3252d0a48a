import Ecoa.Proofs.Linking.Data
import Ecoa.Proofs.Linking.Delivery
import Ecoa.Proofs.Linking.Redirection
import Ecoa.Proofs.Linking.Requests

/-!
# What is bound to what

Every binding of a model that is built joins two stored entities, of the kinds that its table is
for. A sender therefore looks for its receivers in the table in which they look for their senders,
and the two views are mirror images of each other.
-/

namespace Ecoa

namespace BindingTable

variable {ι : Type} [DecidableEq ι] {t : BindingTable ι} {s : Finset (Binding ι)} {x y : ι}

/-- The table knows the entity: as one that has receivers or senders, or as an end of a binding. -/
def Mentions (t : BindingTable ι) (x : ι) : Prop :=
  (t.receiversOf? x).isSome ∨ (t.sendersOf? x).isSome ∨
    ∃ b ∈ t.toList, b.sender = x ∨ b.receiver = x

theorem Represents.exists_of_receiversOf? (h : t.Represents s) (hx : (t.receiversOf? x).isSome) :
    ∃ b ∈ t.toList, b.sender = x := by
  rw [receiversOf?, Option.isSome_map] at hx
  obtain ⟨groups, hgroups⟩ := Option.isSome_iff_exists.mp hx
  obtain ⟨sk, rk, r, hmem⟩ := h.senders_filled.exists_mem_toList hgroups
  rw [BindingListing.mem_toList] at hmem
  exact ⟨⟨x, sk, r, rk⟩, BindingTable.mem_toList.mpr hmem, rfl⟩

theorem Represents.exists_of_sendersOf? (h : t.Represents s) (hx : (t.sendersOf? x).isSome) :
    ∃ b ∈ t.toList, b.receiver = x := by
  rw [sendersOf?, Option.isSome_map] at hx
  obtain ⟨groups, hgroups⟩ := Option.isSome_iff_exists.mp hx
  obtain ⟨rk, sk, r, hmem⟩ := h.receivers_filled.exists_mem_toList hgroups
  rw [BindingListing.mem_toList] at hmem
  exact ⟨⟨r, sk, x, rk⟩, (h.mem_toList _).mpr ((h.byReceiver ⟨r, sk, x, rk⟩).mp hmem), rfl⟩

/-- Only the ends of bindings are known to a table. -/
theorem Represents.mentions_iff (h : t.Represents s) :
    t.Mentions x ↔ ∃ b ∈ t.toList, b.sender = x ∨ b.receiver = x := by
  constructor
  · rintro (hx | hx | hx)
    · obtain ⟨b, hb, hsender⟩ := h.exists_of_receiversOf? hx
      exact ⟨b, hb, .inl hsender⟩
    · obtain ⟨b, hb, hreceiver⟩ := h.exists_of_sendersOf? hx
      exact ⟨b, hb, .inr hreceiver⟩
    · exact hx
  · exact fun hx => .inr (.inr hx)

end BindingTable

/-- Steps of relaying keep a table that represents a set one that does. -/
theorem Relay.exists_represents_foldl (steps : List (Binding EntityId × List (Binding EntityId)))
    {state : BindingTable EntityId × Counts} (h : ∃ s, state.1.Represents s) :
    ∃ s, (steps.foldl redirect state).1.Represents s := by
  induction steps generalizing state with
  | nil => exact h
  | cons step steps ih =>
    obtain ⟨s, h⟩ := h
    exact ih ⟨_, (h.bindAll step.2).1.unbind step.1⟩

namespace Model

variable {m m₁ : Model} {b : Binding EntityId}

/-- The binding joins two entities that the model stores. -/
def JoinsStored (m : Model) (b : Binding EntityId) : Prop :=
  (m.entity? b.sender).isSome ∧ (m.entity? b.receiver).isSome

/-- Parties are stored. -/
theorem isSome_entity?_of_mem_parties {kind : EntityKind} {x : Party} (h : x ∈ m.parties kind) :
    (m.entity? x.id).isSome ∧ x.id.kind = kind := by
  obtain ⟨i, e, he, rfl⟩ := mem_parties.mp h
  exact ⟨Option.isSome_iff_exists.mpr ⟨e, he⟩, rfl⟩

/-- What is bound between all parties of two kinds joins stored entities of these kinds. -/
theorem joinsStored_of_mem_flatMap {kind kind' : EntityKind}
    {keys : Party → Party → List (String × String)}
    (h : b ∈ (m.parties kind).flatMap fun x => (m.parties kind').flatMap fun y =>
      bindingsUnder x.id y.id (keys x y)) :
    m.JoinsStored b ∧ b.sender.kind = kind ∧ b.receiver.kind = kind' := by
  simp only [List.mem_flatMap, bindingsUnder, List.mem_map] at h
  obtain ⟨x, hx, y, hy, k, -, rfl⟩ := h
  obtain ⟨hsender, hkind⟩ := isSome_entity?_of_mem_parties hx
  obtain ⟨hreceiver, hkind'⟩ := isSome_entity?_of_mem_parties hy
  exact ⟨⟨hsender, hreceiver⟩, hkind, hkind'⟩

/-- Relaying leaves events bound between stored entities of kinds that are compared. -/
theorem IsEventLinked.of_mem_relayed (hl : m.IsEventLinked m₁) (hb : b ∈ m₁.relayed.toList) :
    m.JoinsStored b ∧ (b.sender.kind, b.receiver.kind) ∈ EventLinking.phases := by
  have hfound : ∀ c ∈ m₁.events.toList,
      m.JoinsStored c ∧ (c.sender.kind, c.receiver.kind) ∈ EventLinking.phases := by
    intro c hc
    obtain ⟨hphase, hsender, hreceiver⟩ :=
      EventLinking.exists_of_mem_bindings ((hl.mem_events c).mp hc)
    exact ⟨⟨Option.isSome_iff_exists.mpr hsender, Option.isSome_iff_exists.mpr hreceiver⟩, hphase⟩
  rw [mem_relayed fun _ _ _ _ => hl.not_isInbound_of_mem_replacements] at hb
  rcases hb with ⟨hb, -⟩ | ⟨c, hc, hinbound, hb⟩
  · exact hfound b hb
  · obtain ⟨hsender, -, t, ht, hreceiver, -⟩ := Relay.mem_replacements.mp hb
    obtain ⟨sending, hsending, hsent⟩ := Relay.mem_targets.mp ht
    obtain ⟨hbound, hsame, -⟩ := Relay.of_mem_outBindings hsent
    obtain ⟨-, i, -, -, hi, -⟩ := Relay.sendingSide?_eq_some hsending
    obtain ⟨r, f, hr, -⟩ := hl.exists_receiver hbound (hsame.trans hi)
    obtain ⟨hkind, -, -⟩ := Relay.isInbound_iff.mp hinbound
    -- the sender is that of the inbound binding, the receiver that of the dynamic trigger
    rw [JoinsStored, hsender, hreceiver]
    refine ⟨⟨(hfound c hc).1.1, (hfound t hbound).1.2⟩, ?_⟩
    have hreceived : t.receiver.kind = .eventReceived := congrArg EntityId.kind hr
    rcases hkind with hkind | hkind
    · rw [hkind, hreceived]
      decide
    · rw [hkind, hreceived]
      decide

/-- Linking neither adds nor removes entities. -/
theorem isSome_entity?_link (m : Model) (id : EntityId) :
    (m.link.1.entity? id).isSome = (m.entity? id).isSome := by
  obtain ⟨kind, i⟩ := id
  rw [link_fst_eq, linkEvents_fst]
  cases kind with
  | external | dataRead | dataWritten =>
    simp [entity?, store, stampedReaders, stampedWriters, Store.get?_mapWithIndex]
  | _ => rfl

/-- Each table is a set of bindings between stored entities of the kinds that it is for. -/
structure IsWellBound (m : Model) : Prop where
  represents_events : ∃ s, m.events.Represents s
  represents_requests : ∃ s, m.requests.Represents s
  represents_data : ∃ s, m.data.Represents s
  events : ∀ b ∈ m.events.toList,
    m.JoinsStored b ∧ (b.sender.kind, b.receiver.kind) ∈ EventLinking.phases
  requests : ∀ b ∈ m.requests.toList,
    m.JoinsStored b ∧ b.sender.kind = .requestSend ∧ b.receiver.kind = .requestReceived
  data : ∀ b ∈ m.data.toList,
    m.JoinsStored b ∧ b.sender.kind = .dataWritten ∧ b.receiver.kind = .dataRead

/-- Tables that are filled from empty by what is found in a populated model are bound well. -/
theorem IsPopulated.isWellBound {p : Declared.Project} (h : m.IsPopulated p)
    (hlink : m₁ = m.link.1) : m₁.IsWellBound := by
  have hstored : ∀ {b}, m.JoinsStored b → m₁.JoinsStored b := by
    intro b hb
    rw [JoinsStored, hlink, isSome_entity?_link, isSome_entity?_link]
    exact hb
  rw [link_fst_eq] at hlink
  have hevents : m₁.events = m.linkEvents.1.relayed := by rw [hlink]
  have hrequests : m₁.requests = (m.requests.bindAll (RequestLinking.bindings m)).1 := by rw [hlink]
  have hdata : m₁.data = (m.data.bindAll (DataLinking.bindings m)).1 := by rw [hlink]
  clear hlink
  constructor
  case represents_events =>
    rw [hevents]
    apply Relay.exists_represents_foldl
    rw [linkEvents_fst, h.events]
    exact ⟨_, (BindingTable.represents_empty.bindAll _).1⟩
  case represents_requests =>
    rw [hrequests, h.requests]
    exact ⟨_, (BindingTable.represents_empty.bindAll _).1⟩
  case represents_data =>
    rw [hdata, h.data]
    exact ⟨_, (BindingTable.represents_empty.bindAll _).1⟩
  case events =>
    intro b hb
    rw [hevents] at hb
    obtain ⟨hjoins, hphase⟩ := h.isEventLinked.of_mem_relayed hb
    exact ⟨hstored hjoins, hphase⟩
  case requests =>
    intro b hb
    rw [hrequests, BindingTable.mem_toList, h.contains_requests, RequestLinking.bindings_eq] at hb
    obtain ⟨hjoins, hkinds⟩ := joinsStored_of_mem_flatMap hb
    exact ⟨hstored hjoins, hkinds⟩
  case data =>
    intro b hb
    rw [hdata, BindingTable.mem_toList, h.contains_data, DataLinking.bindings_eq] at hb
    obtain ⟨hjoins, hkinds⟩ := joinsStored_of_mem_flatMap hb
    exact ⟨hstored hjoins, hkinds⟩

/-! ## Views -/

section

variable (h : m.IsWellBound) {s r : EntityId} {sk rk : String}

include h

theorem IsWellBound.exists_of_mentions {id : EntityId}
    (hid : ∃ t ∈ [m.events, m.requests, m.data], t.Mentions id) : (m.entity? id).isSome := by
  have hends : ∀ {t : BindingTable EntityId}, (∃ s, t.Represents s) →
      (∀ b ∈ t.toList, m.JoinsStored b) → t.Mentions id → (m.entity? id).isSome := by
    rintro t ⟨s, ht⟩ hjoins hmentions
    obtain ⟨b, hb, rfl | rfl⟩ := ht.mentions_iff.mp hmentions
    · exact (hjoins b hb).1
    · exact (hjoins b hb).2
  simp only [List.mem_cons, List.not_mem_nil, or_false, exists_eq_or_imp, exists_eq_left] at hid
  rcases hid with hid | hid | hid
  · exact hends h.represents_events (fun b hb => (h.events b hb).1) hid
  · exact hends h.represents_requests (fun b hb => (h.requests b hb).1) hid
  · exact hends h.represents_data (fun b hb => (h.data b hb).1) hid

/-- Events neither come from clients nor go to servers. -/
theorem IsWellBound.not_mem_events (hkind : s.kind = .requestSend ∨ r.kind = .requestReceived) :
    ⟨s, sk, r, rk⟩ ∉ m.events.toList := by
  intro hmem
  have hphase := (h.events _ hmem).2
  rcases hkind with hkind | hkind
  · simp [hkind, EventLinking.phases] at hphase
  · simp [hkind, EventLinking.phases] at hphase

/-- A sender sees its receivers of events and of requests alike. -/
theorem IsWellBound.mem_receiversOf?_iff :
    (∃ peers, m.receiversOf? s = some peers ∧ r ∈ peers.under sk rk) ↔
      ⟨s, sk, r, rk⟩ ∈ m.events.toList ∨ ⟨s, sk, r, rk⟩ ∈ m.requests.toList := by
  obtain ⟨events, hevents⟩ := h.represents_events
  obtain ⟨requests, hrequests⟩ := h.represents_requests
  unfold receiversOf?
  split
  · next hkind =>
    rw [hrequests.mem_receiversOf?_iff, ← hrequests.mem_toList,
      or_iff_right (h.not_mem_events (.inl hkind))]
  · next hkind =>
    rw [hevents.mem_receiversOf?_iff, ← hevents.mem_toList,
      or_iff_left fun hmem => hkind (h.requests _ hmem).2.1]

theorem IsWellBound.mem_sendersOf?_iff :
    (∃ peers, m.sendersOf? r = some peers ∧ s ∈ peers.under rk sk) ↔
      ⟨s, sk, r, rk⟩ ∈ m.events.toList ∨ ⟨s, sk, r, rk⟩ ∈ m.requests.toList := by
  obtain ⟨events, hevents⟩ := h.represents_events
  obtain ⟨requests, hrequests⟩ := h.represents_requests
  unfold sendersOf?
  split
  · next hkind =>
    rw [hrequests.mem_sendersOf?_iff, ← hrequests.mem_toList,
      or_iff_right (h.not_mem_events (.inr hkind))]
  · next hkind =>
    rw [hevents.mem_sendersOf?_iff, ← hevents.mem_toList,
      or_iff_left fun hmem => hkind (h.requests _ hmem).2.2]

end

end Model

/-- In a model that is built, tables mention stored entities alone and bind them by their kinds, and
what an entity sees of another is what the other sees of it. -/
theorem Builder.Builds.tables_wellBound {b : Builder} {m : Model} (hb : b.Builds m) :
    (∀ t ∈ [m.events, m.requests, m.data], ∀ id, t.Mentions id → (m.entity? id).isSome) ∧
    (∀ x ∈ m.events.toList,
      x.sender.kind ∈ [.eventSend, .external, .trigger, .dynamicTriggerSend] ∧
      x.receiver.kind ∈ [.eventReceived, .dynamicTriggerReceived] ∧
      (x.sender.kind ∈ [.trigger, .dynamicTriggerSend] →
        x.receiver.kind ≠ .dynamicTriggerReceived)) ∧
    (∀ x ∈ m.requests.toList,
      x.sender.kind = .requestSend ∧ x.receiver.kind = .requestReceived) ∧
    (∀ x ∈ m.data.toList, x.sender.kind = .dataWritten ∧ x.receiver.kind = .dataRead) ∧
    (∀ s r sk rk, (∃ peers, m.receiversOf? s = some peers ∧ r ∈ peers.under sk rk) ↔
      ∃ peers, m.sendersOf? r = some peers ∧ s ∈ peers.under rk sk) ∧
    (∀ s r sk rk, (∃ peers, m.readersOf? s = some peers ∧ r ∈ peers.under sk rk) ↔
      ∃ peers, m.writersOf? r = some peers ∧ s ∈ peers.under rk sk) := by
  obtain ⟨m₀, hm₀, hlink⟩ := hb.exists_populated
  have h : m.IsWellBound := hm₀.isWellBound hlink
  have hphases : ∀ k ∈ EventLinking.phases,
      k.1 ∈ [.eventSend, .external, .trigger, .dynamicTriggerSend] ∧
      k.2 ∈ [.eventReceived, .dynamicTriggerReceived] ∧
      (k.1 ∈ [.trigger, .dynamicTriggerSend] → k.2 ≠ .dynamicTriggerReceived) := by
    decide
  obtain ⟨data, hdata⟩ := h.represents_data
  refine ⟨fun t ht id hid => h.exists_of_mentions ⟨t, ht, hid⟩,
    fun x hx => hphases _ (h.events x hx).2, fun x hx => (h.requests x hx).2,
    fun x hx => (h.data x hx).2, fun s r sk rk => ?_, fun s r sk rk => ?_⟩
  · exact h.mem_receiversOf?_iff.trans h.mem_sendersOf?_iff.symm
  · exact hdata.mem_receiversOf?_iff.trans hdata.mem_sendersOf?_iff.symm

open Declared in
/-- The bell that the dynamic trigger delays is seen from both ends. -/
theorem Builder.Builds.tables_wellBound_delayingProject :
    ∃ m, (Builder.new delayingProject).Builds m ∧
      ∃ peers, m.sendersOf? ⟨.eventReceived, 0⟩ = some peers ∧
        ⟨.eventSend, 0⟩ ∈ peers.under "ear:a" "bell:a" := by
  refine ⟨_, ⟨_, _, rfl, rfl⟩, ?_⟩
  obtain ⟨-, -, -, -, hmirror, -⟩ := tables_wellBound (b := Builder.new delayingProject)
    ⟨_, _, rfl, rfl⟩
  refine (hmirror ⟨.eventSend, 0⟩ ⟨.eventReceived, 0⟩ "bell:a" "ear:a").mp ⟨_, rfl, ?_⟩
  decide +kernel

end Ecoa
