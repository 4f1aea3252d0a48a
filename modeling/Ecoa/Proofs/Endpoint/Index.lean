import Mathlib.Data.List.Nodup
import Ecoa.Component.EndpointIndex

/-!
# Endpoints that links join

`Links.Joins links a b`: the own endpoint `a` has `b` opposite. An index built from joins has `b`
opposite `a` exactly when some join has `a` on its left and `b` on its right, so that the indices of
the two sides of a link are converse to each other.
-/

namespace Ecoa

/-- An endpoint with that id is in the list. -/
def HasEndpoint (es : List Endpoint) (a : EndpointId) : Prop := ∃ e ∈ es, e.id = a

theorem hasEndpoint_nil (a : EndpointId) : ¬ HasEndpoint [] a := nofun

theorem hasEndpoint_cons {e : Endpoint} {es : List Endpoint} {a : EndpointId} :
    HasEndpoint (e :: es) a ↔ e.id = a ∨ HasEndpoint es a := by
  simp [HasEndpoint]

theorem hasEndpoint_append {es es' : List Endpoint} {a : EndpointId} :
    HasEndpoint (es ++ es') a ↔ HasEndpoint es a ∨ HasEndpoint es' a := by
  simp [HasEndpoint, or_and_right, exists_or]

namespace Links

/-- The own endpoint `a` has `b` opposite. -/
def Joins (links : Links) (a b : EndpointId) : Prop :=
  ∃ e ∈ links, e.1.id = a ∧ HasEndpoint e.2 b

theorem joins_nil (a b : EndpointId) : ¬ Joins [] a b := nofun

theorem hasEndpoint_addEndpoint {es : List Endpoint} {e : Endpoint} {b : EndpointId} :
    HasEndpoint (addEndpoint es e) b ↔ HasEndpoint es b ∨ e.id = b := by
  rw [addEndpoint]
  split
  · next h =>
    refine ⟨.inl, fun hb => hb.elim id ?_⟩
    rintro rfl
    obtain ⟨e', he', heq⟩ := List.any_eq_true.mp h
    exact ⟨e', he', of_decide_eq_true heq⟩
  · rw [hasEndpoint_append, hasEndpoint_cons]
    simp [hasEndpoint_nil]

theorem hasEndpoint_foldl_addEndpoint {new : List Endpoint} {es : List Endpoint} {b : EndpointId} :
    HasEndpoint (new.foldl addEndpoint es) b ↔ HasEndpoint es b ∨ HasEndpoint new b := by
  induction new generalizing es with
  | nil => simp [hasEndpoint_nil]
  | cons e new ih => rw [List.foldl_cons, ih, hasEndpoint_addEndpoint, hasEndpoint_cons, or_assoc]

theorem has_iff {links : Links} {own : Endpoint} :
    links.has own = true ↔ ∃ e ∈ links, e.1.id = own.id := by
  simp [has]

theorem joins_join {links : Links} {own : Endpoint} {opposite : List Endpoint} {a b : EndpointId} :
    (links.join own opposite).Joins a b ↔
      links.Joins a b ∨ (own.id = a ∧ HasEndpoint opposite b) := by
  rw [join]
  split
  · next h =>
    simp only [Joins, List.mem_map]
    constructor
    · rintro ⟨_, ⟨e, he, rfl⟩, ha, hb⟩
      split at ha
      · next heq =>
        rw [if_pos heq, hasEndpoint_foldl_addEndpoint] at hb
        exact hb.imp (fun hb => ⟨e, he, ha, hb⟩) fun hb => ⟨heq.symm.trans ha, hb⟩
      · next heq =>
        rw [if_neg heq] at hb
        exact .inl ⟨e, he, ha, hb⟩
    · rintro (⟨e, he, rfl, hb⟩ | ⟨rfl, hb⟩)
      · refine ⟨_, ⟨e, he, rfl⟩, ?_⟩
        split
        · exact ⟨rfl, hasEndpoint_foldl_addEndpoint.mpr (.inl hb)⟩
        · exact ⟨rfl, hb⟩
      · obtain ⟨e, he, heq⟩ := has_iff.mp h
        refine ⟨_, ⟨e, he, rfl⟩, ?_⟩
        rw [if_pos heq]
        exact ⟨heq, hasEndpoint_foldl_addEndpoint.mpr (.inr hb)⟩
  · simp [Joins, or_and_right, exists_or, hasEndpoint_foldl_addEndpoint, hasEndpoint_nil]

theorem joins_joinAll {links : Links} {own opposite : List Endpoint} {a b : EndpointId} :
    (links.joinAll own opposite).Joins a b ↔
      links.Joins a b ∨ (HasEndpoint own a ∧ HasEndpoint opposite b) := by
  rw [joinAll]
  induction own generalizing links with
  | nil => simp [hasEndpoint_nil]
  | cons e own ih => rw [List.foldl_cons, ih, joins_join, hasEndpoint_cons, or_assoc, or_and_right]

theorem joins_ofJoins {js : List Join} {a b : EndpointId} :
    (ofJoins js).Joins a b ↔ ∃ j ∈ js, HasEndpoint j.left a ∧ HasEndpoint j.right b := by
  have loop : ∀ links : Links, (js.foldl (fun links j => links.joinAll j.left j.right) links).Joins
      a b ↔ links.Joins a b ∨ ∃ j ∈ js, HasEndpoint j.left a ∧ HasEndpoint j.right b := by
    induction js with
    | nil => simp
    | cons j js ih =>
      intro links
      rw [List.foldl_cons, ih, joins_joinAll, or_assoc]
      simp
  rw [ofJoins, loop]
  simp [joins_nil]

/-- An index is the converse of the one from the other side. -/
theorem joins_ofJoins_swap {js : List Join} {a b : EndpointId} :
    (ofJoins (js.map .swap)).Joins b a ↔ (ofJoins js).Joins a b := by
  simp only [joins_ofJoins, List.mem_map]
  constructor
  · rintro ⟨_, ⟨j, hj, rfl⟩, hb, ha⟩
    exact ⟨j, hj, ha, hb⟩
  · rintro ⟨j, hj, ha, hb⟩
    exact ⟨_, ⟨j, hj, rfl⟩, hb, ha⟩

/-- Links are picked by the ids of their own endpoints. -/
theorem joins_filter {links : Links} {q : EndpointId → Prop} [DecidablePred q] {a b : EndpointId} :
    Joins (links.filter fun e => q e.1.id) a b ↔ links.Joins a b ∧ q a := by
  simp only [Joins, List.mem_filter, decide_eq_true_eq]
  constructor
  · rintro ⟨e, ⟨he, h⟩, rfl, hb⟩
    exact ⟨⟨e, he, rfl, hb⟩, h⟩
  · rintro ⟨⟨e, he, rfl, hb⟩, h⟩
    exact ⟨e, ⟨he, h⟩, rfl, hb⟩

/-! ### Own endpoints -/

/-- No two own endpoints have one id. -/
def IsDistinct (links : Links) : Prop := (links.map (·.1.id)).Nodup

theorem map_id_map_snd {links : Links} {f : Endpoint × List Endpoint → List Endpoint}
    {own : Endpoint} :
    (links.map fun e => if e.1.id = own.id then (e.1, f e) else e).map (·.1.id) =
      links.map (·.1.id) := by
  rw [List.map_map]
  refine List.map_congr_left fun e _ => ?_
  rw [Function.comp_apply]
  split <;> rfl

theorem isDistinct_concat {links : Links} {own : Endpoint} {opposite : List Endpoint} :
    IsDistinct (links ++ [(own, opposite)]) ↔ links.IsDistinct ∧ ¬ links.has own = true := by
  rw [IsDistinct, List.map_append, List.map_singleton, ← List.concat_eq_append, List.nodup_concat,
    has_iff, List.mem_map, and_comm, IsDistinct]

theorem IsDistinct.join {links : Links} (h : links.IsDistinct) (own : Endpoint)
    (opposite : List Endpoint) : (links.join own opposite).IsDistinct := by
  rw [Links.join]
  split
  · rwa [IsDistinct, map_id_map_snd]
  · next hnew => exact isDistinct_concat.mpr ⟨h, hnew⟩

theorem IsDistinct.joinAll {links : Links} (h : links.IsDistinct) (own opposite : List Endpoint) :
    (links.joinAll own opposite).IsDistinct := by
  rw [Links.joinAll]
  induction own generalizing links with
  | nil => exact h
  | cons e own ih => exact ih (h.join e opposite)

theorem isDistinct_ofJoins (js : List Join) : (ofJoins js).IsDistinct := by
  have loop : ∀ links : Links, links.IsDistinct →
      (js.foldl (fun links j => links.joinAll j.left j.right) links).IsDistinct := by
    induction js with
    | nil => exact fun _ h => h
    | cons j js ih => exact fun _ h => ih _ (h.joinAll j.left j.right)
  exact loop [] List.nodup_nil

/-- An endpoint that is not there yet comes last. -/
theorem insert_of_isDistinct {links : Links} {own : Endpoint} {opposite : List Endpoint}
    (h : IsDistinct (links ++ [(own, opposite)])) :
    links.insert own opposite = links ++ [(own, opposite)] := by
  rw [insert, if_neg (isDistinct_concat.mp h).2]

end Links

theorem isProper_of_hasEndpoint {j : Join} {a b : EndpointId} (ha : HasEndpoint j.left a)
    (hb : HasEndpoint j.right b) : j.isProper = true := by
  obtain ⟨e, he, -⟩ := ha
  obtain ⟨e', he', -⟩ := hb
  simp [Join.isProper, List.ne_nil_of_mem he, List.ne_nil_of_mem he']

/-- Links with an empty side join nothing anyway. -/
theorem Links.joins_ofJoins_filter {js : List Join} {a b : EndpointId} :
    (Links.ofJoins (js.filter Join.isProper)).Joins a b ↔
      ∃ j ∈ js, HasEndpoint j.left a ∧ HasEndpoint j.right b := by
  simp only [joins_ofJoins, List.mem_filter]
  constructor
  · rintro ⟨j, ⟨hj, -⟩, h⟩
    exact ⟨j, hj, h⟩
  · rintro ⟨j, hj, ha, hb⟩
    exact ⟨j, ⟨hj, isProper_of_hasEndpoint ha hb⟩, ha, hb⟩

/-! ## Declared endpoints -/

/-- What an endpoint stands for, in whatever language. -/
structure Port where
  kind : EndpointKind
  instanceName : String
  operation : String
  deriving DecidableEq

def EndpointId.port (a : EndpointId) : Port := ⟨a.kind, a.instanceName, a.operation⟩

theorem EndpointId.port_eq_iff {a : EndpointId} {p : Port} :
    a.port = p ↔ a.kind = p.kind ∧ a.instanceName = p.instanceName ∧ a.operation = p.operation := by
  obtain ⟨k, i, o⟩ := p
  rw [port, Port.mk.injEq]

namespace Declared

/-- The listed endpoints of all kinds, in order of declaration. -/
def EndpointGroups.ports (groups : EndpointGroups) : List Port :=
  groups.toList.flatMap fun g => g.2.map fun e => ⟨g.1, e.instanceName, e.operation⟩

/-- An event link of the component has one port among its senders, the other among its receivers. -/
def Component.Sends (c : Component) (sender receiver : Port) : Prop :=
  ∃ l ∈ c.eventLinks, sender ∈ l.senders.ports ∧ receiver ∈ l.receivers.ports

/-- A request link of the component has one port among its clients and the other as its first
server. -/
def Component.Requests (c : Component) (client server : Port) : Prop :=
  ∃ l ∈ c.requestLinks, client ∈ l.clients.ports ∧ l.server.ports.head? = some server

/-- A data link of the component has one port among its writers, the other among its readers. -/
def Component.Shares (c : Component) (writer reader : Port) : Prop :=
  ∃ l ∈ c.dataLinks, writer ∈ l.writers.ports ∧ reader ∈ l.readers.ports

end Declared

section

variable {groups : Declared.EndpointGroups}
  {attributes : Declared.Endpoint → Endpoint → Endpoint}

/-- Attributes leave what an endpoint stands for. -/
theorem map_port_endpointsOf (h : ∀ e (p : Endpoint), (attributes e p).id.port = p.id.port) :
    (endpointsOf groups attributes).map (·.id.port) = groups.ports := by
  simp only [endpointsOf, Declared.EndpointGroups.ports, List.map_flatMap, List.map_map,
    Function.comp_def, h]
  rfl

theorem port_withActivation (e : Declared.Endpoint) (p : Endpoint) :
    (withActivation e p).id.port = p.id.port := rfl

theorem exists_hasEndpoint_iff {es : List Endpoint} {p : Port} :
    (∃ a, HasEndpoint es a ∧ a.port = p) ↔ p ∈ es.map (·.id.port) := by
  simp only [HasEndpoint, List.mem_map]
  constructor
  · rintro ⟨_, ⟨e, he, rfl⟩, rfl⟩
    exact ⟨e, he, rfl⟩
  · rintro ⟨e, he, rfl⟩
    exact ⟨e.id, ⟨e, he, rfl⟩, rfl⟩

theorem exists_hasEndpoint_endpointsOf
    (h : ∀ e (p : Endpoint), (attributes e p).id.port = p.id.port) {p : Port} :
    (∃ a, HasEndpoint (endpointsOf groups attributes) a ∧ a.port = p) ↔ p ∈ groups.ports := by
  rw [exists_hasEndpoint_iff, map_port_endpointsOf h]

/-- The same of the first endpoint alone. -/
theorem exists_hasEndpoint_take_one {p : Port} :
    (∃ a, HasEndpoint ((endpointsOf groups withActivation).take 1) a ∧ a.port = p) ↔
      groups.ports.head? = some p := by
  rw [exists_hasEndpoint_iff, List.map_take, map_port_endpointsOf port_withActivation]
  cases groups.ports with
  | nil => simp
  | cons q rest => simp [eq_comm]

end

namespace EndpointIndex

/-- The index of declared links joins what one link has on its sides. -/
theorem exists_joins_iff {L : Type} {ls : List L} {join : L → Join} {A B : EndpointId → Prop}
    {P Q : L → Prop} (hP : ∀ l, (∃ a, HasEndpoint (join l).left a ∧ A a) ↔ P l)
    (hQ : ∀ l, (∃ b, HasEndpoint (join l).right b ∧ B b) ↔ Q l) :
    (∃ a b, (Links.ofJoins ((ls.map join).filter Join.isProper)).Joins a b ∧ A a ∧ B b) ↔
      ∃ l ∈ ls, P l ∧ Q l := by
  simp only [Links.joins_ofJoins_filter, List.mem_map]
  constructor
  · rintro ⟨a, b, ⟨_, ⟨l, hl, rfl⟩, ha, hb⟩, hA, hB⟩
    exact ⟨l, hl, (hP l).mp ⟨a, ha, hA⟩, (hQ l).mp ⟨b, hb, hB⟩⟩
  · rintro ⟨l, hl, hPl, hQl⟩
    obtain ⟨a, ha, hA⟩ := (hP l).mpr hPl
    obtain ⟨b, hb, hB⟩ := (hQ l).mpr hQl
    exact ⟨a, b, ⟨_, ⟨l, hl, rfl⟩, ha, hb⟩, hA, hB⟩

variable {c : Declared.Component} {p q : Port}

theorem exists_joins_eventSenders :
    (∃ a b, (build c).eventSenders.Joins a b ∧ a.port = p ∧ b.port = q) ↔ c.Sends p q := by
  refine exists_joins_iff (fun l => ?_)
    (fun l => exists_hasEndpoint_endpointsOf port_withActivation)
  simp only [Declared.EventLink.join]
  apply exists_hasEndpoint_endpointsOf
  intro e p
  cases e.language <;> rfl

theorem exists_joins_requestClients :
    (∃ a b, (build c).requestClients.Joins a b ∧ a.port = p ∧ b.port = q) ↔ c.Requests p q :=
  exists_joins_iff (fun _ => exists_hasEndpoint_endpointsOf port_withActivation)
    (fun _ => exists_hasEndpoint_take_one)

theorem exists_joins_dataWriters :
    (∃ a b, (build c).dataWriters.Joins a b ∧ a.port = p ∧ b.port = q) ↔ c.Shares p q := by
  refine exists_joins_iff (fun l => ?_) (fun l => ?_)
  · simp only [Declared.DataLink.join]
    apply exists_hasEndpoint_endpointsOf
    intro _ _
    rfl
  · simp only [Declared.DataLink.join]
    apply exists_hasEndpoint_endpointsOf
    intro _ _
    rfl

theorem joins_eventReceivers {a b : EndpointId} :
    (build c).eventReceivers.Joins b a ↔ (build c).eventSenders.Joins a b :=
  Links.joins_ofJoins_swap

theorem joins_requestServers {a b : EndpointId} :
    (build c).requestServers.Joins b a ↔ (build c).requestClients.Joins a b :=
  Links.joins_ofJoins_swap

theorem joins_dataReaders {a b : EndpointId} :
    (build c).dataReaders.Joins b a ↔ (build c).dataWriters.Joins a b :=
  Links.joins_ofJoins_swap

theorem joins_select {links : Links} {instances : List String} {operation : String}
    {a b : EndpointId} :
    (select links instances operation).Joins a b ↔
      links.Joins a b ∧ a.kind = .moduleInstance ∧ a.operation = operation ∧
        a.instanceName ∈ instances :=
  Links.joins_filter (q := fun a =>
    a.kind = .moduleInstance ∧ a.operation = operation ∧ a.instanceName ∈ instances)

theorem joins_selectInstance {links : Links} {kind : EndpointKind} {instanceName : String}
    {a b : EndpointId} :
    (selectInstance links kind instanceName).Joins a b ↔
      links.Joins a b ∧ a.kind = kind ∧ a.instanceName = instanceName :=
  Links.joins_filter (q := fun a => a.kind = kind ∧ a.instanceName = instanceName)

end EndpointIndex

end Ecoa
