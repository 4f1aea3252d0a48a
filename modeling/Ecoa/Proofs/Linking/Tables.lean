import Ecoa.Proofs.Linking.Agreement
import Ecoa.Proofs.Linking.Control

/-!
# Linked models that agree on components

What linking does to an entity, and that models that agree on components bind the entities of these
components alike in all three tables.
-/

namespace Ecoa

/-- Requests go from clients to servers. -/
theorem RequestLinking.kinds_of_mem_bindings {m : Model} {b : Binding EntityId}
    (h : b ∈ bindings m) : b.sender.kind = .requestSend ∧ b.receiver.kind = .requestReceived :=
  (Model.joinsStored_of_mem_flatMap (bindings_eq ▸ h)).2

namespace Model

/-- What linking makes of an entity: an external takes its inputs, and data operations have their
keys stamped. -/
def linkedEntity (m : Model) : (kind : EntityKind) → Nat → Entity kind → Entity kind
  | .external, i, (e : External) =>
    { e with inputs := EventLinking.externalInputs m (EventLinking.allMatches m) i e }
  | .dataWritten, i, (w : DataWritten) =>
    let keys := ((DataLinking.bindings m).filter (·.sender.index = i)).map (·.senderKey)
    { w with controlled := DataLinking.stamp w.links w.controlled keys }
  | .dataRead, i, (r : DataRead) =>
    let keys := ((DataLinking.bindings m).filter (·.receiver.index = i)).map (·.receiverKey)
    { r with controlled := DataLinking.stamp r.links r.controlled keys }
  | _, _, e => e

theorem get?_store_link (m : Model) (kind : EntityKind) (i : Nat) :
    (m.link.1.store kind).get? i = ((m.store kind).get? i).map (m.linkedEntity kind i) := by
  rw [link_fst_eq, linkEvents_fst]
  cases kind with
  | external =>
    simp only [store, Store.get?_mapWithIndex]
    rfl
  | dataWritten =>
    simp only [store, stampedWriters, Store.get?_mapWithIndex]
    rfl
  | dataRead =>
    simp only [store, stampedReaders, Store.get?_mapWithIndex]
    rfl
  | _ =>
    simp only [store]
    exact Option.map_id'.symm

theorem link_events (m : Model) : m.link.1.events = m.linkEvents.1.relayed := by rw [link_fst_eq]

theorem IsPopulated.mem_link_requests {m : Model} {p : Declared.Project} (h : m.IsPopulated p)
    {x : Binding EntityId} : x ∈ m.link.1.requests.toList ↔ x ∈ RequestLinking.bindings m := by
  rw [link_fst_eq, BindingTable.mem_toList, h.contains_requests]

theorem IsPopulated.mem_link_data {m : Model} {p : Declared.Project} (h : m.IsPopulated p)
    {x : Binding EntityId} : x ∈ m.link.1.data.toList ↔ x ∈ DataLinking.bindings m := by
  rw [link_fst_eq, BindingTable.mem_toList, h.contains_data]

/-- The kinds of entity that are bound. -/
theorem IsWellBound.isLinked {m : Model} (h : m.IsWellBound)
    {table : Model → BindingTable EntityId}
    (htable : table ∈ [Model.events, Model.requests, Model.data]) {x : Binding EntityId}
    (hx : x ∈ (table m).toList) :
    m.JoinsStored x ∧ x.sender.kind.isLinked = true ∧ x.receiver.kind.isLinked = true := by
  have hphases : ∀ k ∈ EventLinking.phases, k.1.isLinked = true ∧ k.2.isLinked = true := by decide
  simp only [List.mem_cons, List.not_mem_nil, or_false] at htable
  rcases htable with rfl | rfl | rfl
  · obtain ⟨hjoins, hphase⟩ := h.events x hx
    exact ⟨hjoins, hphases _ hphase⟩
  · obtain ⟨hjoins, hs, hr⟩ := h.requests x hx
    exact ⟨hjoins, hs ▸ rfl, hr ▸ rfl⟩
  · obtain ⟨hjoins, hs, hr⟩ := h.data x hx
    exact ⟨hjoins, hs ▸ rfl, hr ▸ rfl⟩

variable {m m' : Model} {names : String → Prop} {p p' : Declared.Project}

/-- Two entities are bound alike in models that agree on the component of the first. -/
theorem AgreesOn.mem_table_iff (h : m.AgreesOn m' names) (hm : m.IsPopulated p)
    (hm' : m'.IsPopulated p') {kind kind' : EntityKind} {s s' r r' : Nat} {e : Entity kind}
    {f : Entity kind'} (hs : (m.store kind).get? s = some e)
    (hs' : (m'.store kind).get? s' = some e) (hr : (m.store kind').get? r = some f)
    (hr' : (m'.store kind').get? r' = some f) (hname : names (e.component kind)) {k k' : String}
    {table : Model → BindingTable EntityId}
    (htable : table ∈ [Model.events, Model.requests, Model.data]) :
    ⟨⟨kind, s⟩, k, ⟨kind', r⟩, k'⟩ ∈ (table m.link.1).toList ↔
      ⟨⟨kind, s'⟩, k, ⟨kind', r'⟩, k'⟩ ∈ (table m'.link.1).toList := by
  simp only [List.mem_cons, List.not_mem_nil, or_false] at htable
  rcases htable with rfl | rfl | rfl
  · rw [link_events, link_events]
    exact h.mem_relayed_iff hm hm' hs hs' hr hr' hname
  · rw [hm.mem_link_requests, hm'.mem_link_requests]
    by_cases hkinds : kind = .requestSend ∧ kind' = .requestReceived
    · obtain ⟨rfl, rfl⟩ := hkinds
      exact RequestLinking.mem_bindings_congr h.deployment hs hs' hr hr'
    · exact iff_of_false (fun hx => hkinds (RequestLinking.kinds_of_mem_bindings hx))
        fun hx => hkinds (RequestLinking.kinds_of_mem_bindings hx)
  · rw [hm.mem_link_data, hm'.mem_link_data]
    by_cases hkinds : kind = .dataWritten ∧ kind' = .dataRead
    · obtain ⟨rfl, rfl⟩ := hkinds
      exact DataLinking.mem_bindings_congr h.deployment hs hs' hr hr'
    · exact iff_of_false (fun hx => hkinds (DataLinking.kinds_of_mem_bindings hx))
        fun hx => hkinds (DataLinking.kinds_of_mem_bindings hx)

end Model

end Ecoa
