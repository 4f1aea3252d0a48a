import Ecoa.Linking.Pairing
import Ecoa.Proofs.Endpoint.Index

/-!
# Keys of linked operations

The pairs of declarations of two operations that are linked within one component, or over a wire,
and the keys that these pairs give, in terms of the links as they are declared. `LinkFamily` holds
what events, requests and data have in common.
-/

namespace Ecoa

/-- A kind of link: the indices of its two sides, converse to each other, and what it joins. -/
structure LinkFamily where
  senders : Declared.Component → Links
  receivers : Declared.Component → Links
  Joins : Declared.Component → Port → Port → Prop
  joins_receivers : ∀ c a b, (receivers c).Joins b a ↔ (senders c).Joins a b
  exists_joins : ∀ c p q, (∃ a b, (senders c).Joins a b ∧ a.port = p ∧ b.port = q) ↔ Joins c p q

namespace LinkFamily

def events : LinkFamily where
  senders c := (EndpointIndex.build c).eventSenders
  receivers c := (EndpointIndex.build c).eventReceivers
  Joins := Declared.Component.Sends
  joins_receivers _ _ _ := EndpointIndex.joins_eventReceivers
  exists_joins _ _ _ := EndpointIndex.exists_joins_eventSenders

def requests : LinkFamily where
  senders c := (EndpointIndex.build c).requestClients
  receivers c := (EndpointIndex.build c).requestServers
  Joins := Declared.Component.Requests
  joins_receivers _ _ _ := EndpointIndex.joins_requestServers
  exists_joins _ _ _ := EndpointIndex.exists_joins_requestClients

def data : LinkFamily where
  senders c := (EndpointIndex.build c).dataWriters
  receivers c := (EndpointIndex.build c).dataReaders
  Joins := Declared.Component.Shares
  joins_receivers _ _ _ := EndpointIndex.joins_dataReaders
  exists_joins _ _ _ := EndpointIndex.exists_joins_dataWriters

/-- Ports are joined as their endpoints are. -/
theorem exists_joins_ports (f : LinkFamily) {c : Declared.Component} {Q : Port → Port → Prop} :
    (∃ a b, (f.senders c).Joins a b ∧ Q a.port b.port) ↔ ∃ s r, f.Joins c s r ∧ Q s r := by
  constructor
  · rintro ⟨a, b, hab, hQ⟩
    exact ⟨_, _, (f.exists_joins c _ _).mp ⟨a, b, hab, rfl, rfl⟩, hQ⟩
  · rintro ⟨s, r, hjoins, hQ⟩
    obtain ⟨a, b, hab, rfl, rfl⟩ := (f.exists_joins c _ _).mpr hjoins
    exact ⟨a, b, hab, hQ⟩

end LinkFamily

/-- The key of an operation of a module instance under a component instance. -/
def KeyForm.text (form : KeyForm) (moduleInstance component operation : String) : String :=
  match form with
  | .plain => moduleInstance ++ ":" ++ component
  | .withOperation => moduleInstance ++ ":" ++ component ++ ":" ++ operation

theorem KeyForm.key_eq (form : KeyForm) (e : Endpoint) (component : String) :
    form.key e component = form.text e.instanceName component e.operation := by
  cases form <;> rfl

namespace Deployment

variable {d : Deployment} {form : KeyForm} {x y : Party} {p : LinkPair} {k : String × String}

/-- The key is that of a port of the implementation under one of its component instances. -/
def HasKey (d : Deployment) (form : KeyForm) (implementation : String) (p : Port) (key : String) :
    Prop :=
  ∃ u ∈ d.componentNames implementation p.instanceName,
    key = form.text p.instanceName u p.operation

theorem mem_keysOf {implementation key : String} {own : Endpoint} :
    key ∈ d.keysOf form implementation own ↔ d.HasKey form implementation own.id.port key := by
  simp only [keysOf, List.mem_map, KeyForm.key_eq, HasKey, EndpointId.port, eq_comm]

theorem mem_directKeys : k ∈ d.directKeys form x y p ↔ x.component = y.component ∧
    k.1 ∈ d.keysOf form x.component p.senderOwn ∧
      k.2 ∈ d.keysOf form y.component p.receiverOwn := by
  unfold directKeys
  split
  · next h =>
    simp only [List.mem_flatMap, List.mem_map]
    constructor
    · rintro ⟨s, hs, r, hr, rfl⟩
      exact ⟨h, hs, hr⟩
    · rintro ⟨-, hs, hr⟩
      exact ⟨k.1, hs, k.2, hr, rfl⟩
  · next h => simp [h]

theorem mem_wiredKeys : k ∈ d.wiredKeys form x y p ↔
    p.senderDeclared.operation = p.receiverDeclared.operation ∧
      ∃ u ∈ d.componentNames x.component p.senderOwn.instanceName,
      ∃ v ∈ d.componentNames y.component p.receiverOwn.instanceName,
        ⟨v, p.receiverDeclared.instanceName⟩ ∈ d.wiredServices ⟨u, p.senderDeclared.instanceName⟩ ∧
        k = (form.text p.senderOwn.instanceName u p.senderOwn.operation,
          form.text p.receiverOwn.instanceName v p.receiverOwn.operation) := by
  unfold wiredKeys
  split
  · next h =>
    simp only [List.mem_flatMap, List.mem_filterMap, Option.ite_none_right_eq_some,
      Option.some.injEq, KeyForm.key_eq]
    constructor
    · rintro ⟨u, hu, ⟨v, w⟩, hw, ⟨rfl, hv⟩, rfl⟩
      exact ⟨h, u, hu, v, hv, hw, rfl⟩
    · rintro ⟨-, u, hu, v, hv, hw, rfl⟩
      exact ⟨u, hu, _, hw, ⟨rfl, hv⟩, rfl⟩
  · next h => simp [h]

end Deployment

/-! ## Pairs of declarations -/

/-- The links are those on one side of a component whose own endpoint is in `A`. -/
def Links.ArePicked (links side : Links) (A : EndpointId → Prop) : Prop :=
  ∀ a b, links.Joins a b ↔ side.Joins a b ∧ A a

/-- The links are those on one side of a component whose own endpoint stands for a port in `P`. -/
def Links.AreOf (links side : Links) (P : Port → Prop) : Prop :=
  ∀ a b, links.Joins a b ↔ side.Joins a b ∧ P a.port

namespace LinkPair

/-- Only the ids of a pair matter, so the joins of both sides make up all pairs. -/
theorem exists_mem_all {sender receiver : Links}
    {Q : EndpointId → EndpointId → EndpointId → EndpointId → Prop} :
    (∃ p ∈ all sender receiver,
      Q p.senderOwn.id p.senderDeclared.id p.receiverOwn.id p.receiverDeclared.id) ↔
      ∃ a b c d, sender.Joins a b ∧ receiver.Joins c d ∧ Q a b c d := by
  simp only [all, List.mem_flatMap, List.mem_map]
  constructor
  · rintro ⟨_, ⟨s, hs, declared, hd, r, hr, opposite, ho, rfl⟩, hQ⟩
    exact ⟨_, _, _, _, ⟨s, hs, rfl, declared, hd, rfl⟩, ⟨r, hr, rfl, opposite, ho, rfl⟩, hQ⟩
  · rintro ⟨_, _, _, _, ⟨s, hs, rfl, declared, hd, rfl⟩, ⟨r, hr, rfl, opposite, ho, rfl⟩, hQ⟩
    exact ⟨_, ⟨s, hs, declared, hd, r, hr, opposite, ho, rfl⟩, hQ⟩

theorem isMutual_iff {p : LinkPair} : p.isMutual = true ↔
    p.senderDeclared.id = p.receiverOwn.id ∧ p.receiverDeclared.id = p.senderOwn.id :=
  decide_eq_true_iff

theorem kinds_of_isMutual {p : LinkPair} (h : p.isMutual = true) :
    p.senderDeclared.kind = p.receiverOwn.kind ∧ p.receiverDeclared.kind = p.senderOwn.kind := by
  rw [isMutual_iff] at h
  exact ⟨congrArg EndpointId.kind h.1, congrArg EndpointId.kind h.2⟩

variable {f : LinkFamily} {c c' : Declared.Component} {sender receiver : Links}
  {P P' : Port → Prop} {A B : EndpointId → Prop}

/-- Within one component, the pairs that declare each other are the endpoints that a link joins. -/
theorem exists_mutual (hs : sender.ArePicked (f.senders c) A)
    (hr : receiver.ArePicked (f.receivers c) B) {R : EndpointId → EndpointId → Prop} :
    (∃ p ∈ all sender receiver, p.isMutual = true ∧ R p.senderOwn.id p.receiverOwn.id) ↔
      ∃ a b, A a ∧ B b ∧ (f.senders c).Joins a b ∧ R a b := by
  simp only [isMutual_iff]
  rw [exists_mem_all (Q := fun a b c d => (b = c ∧ d = a) ∧ R a c)]
  constructor
  · rintro ⟨_, b, _, a, hab, hba, ⟨rfl, rfl⟩, hR⟩
    rw [hs] at hab
    rw [hr] at hba
    exact ⟨a, b, hab.2, hba.2, hab.1, hR⟩
  · rintro ⟨a, b, hA, hB, hab, hR⟩
    exact ⟨a, b, b, a, (hs a b).mpr ⟨hab, hA⟩,
      (hr b a).mpr ⟨(f.joins_receivers c a b).mpr hab, hB⟩, ⟨rfl, rfl⟩, hR⟩

/-- Across components, a pair is one link on each side. -/
theorem exists_apart (hs : sender.AreOf (f.senders c) P)
    (hr : receiver.AreOf (f.receivers c') P') {R : Port → Port → Port → Port → Prop} :
    (∃ p ∈ all sender receiver, R p.senderOwn.id.port p.senderDeclared.id.port
      p.receiverOwn.id.port p.receiverDeclared.id.port) ↔
      ∃ s t r q, P s ∧ P' r ∧ f.Joins c s t ∧ f.Joins c' q r ∧ R s t r q := by
  rw [exists_mem_all (Q := fun a b c d => R a.port b.port c.port d.port)]
  constructor
  · rintro ⟨a, b, r, q, hab, hrq, hR⟩
    rw [hs] at hab
    rw [hr, f.joins_receivers] at hrq
    exact ⟨_, _, _, _, hab.2, hrq.2, (f.exists_joins c _ _).mp ⟨a, b, hab.1, rfl, rfl⟩,
      (f.exists_joins c' _ _).mp ⟨q, r, hrq.1, rfl, rfl⟩, hR⟩
  · rintro ⟨_, _, _, _, hP, hP', hjoins, hjoins', hR⟩
    obtain ⟨a, b, hab, rfl, rfl⟩ := (f.exists_joins c _ _).mpr hjoins
    obtain ⟨q, r, hqr, rfl, rfl⟩ := (f.exists_joins c' _ _).mpr hjoins'
    exact ⟨a, b, r, q, (hs a b).mpr ⟨hab, hP⟩,
      (hr r q).mpr ⟨(f.joins_receivers c' q r).mpr hqr, hP'⟩, hR⟩

end LinkPair

end Ecoa
