import Ecoa.Proofs.Build.Builds

/-!
# What the steps of linking change

Each step of linking fills its own table of bindings. The operations of modules, the dynamic
triggers and the deployment stay, so that the tables are those found in the model before.
-/

namespace Ecoa

namespace Model

variable (m : Model)

theorem linkEvents_fst : m.linkEvents.1 =
    { m with
      events := (m.events.bindAll ((EventLinking.allMatches m).flatMap (·.bindings))).1
      externals := m.externals.mapWithIndex fun i e =>
        { e with inputs := EventLinking.externalInputs m (EventLinking.allMatches m) i e } } := by
  unfold linkEvents
  dsimp only

/-- Where nothing was bound before, what is bound is what is found. -/
theorem mem_toList_linkEvents (hempty : m.events = .empty) {b : Binding EntityId} :
    b ∈ m.linkEvents.1.events.toList ↔ b ∈ (EventLinking.allMatches m).flatMap (·.bindings) := by
  rw [linkEvents_fst, hempty, BindingTable.mem_toList_bindAll]
  exact or_iff_right nofun

theorem linkRequests_fst : m.linkRequests.1 =
    { m with requests := (m.requests.bindAll (RequestLinking.bindings m)).1 } := by
  unfold linkRequests
  dsimp only

/-- The writers, each with the keys stamped under which it is found bound. -/
def stampedWriters : Store DataWritten :=
  m.dataWritten.mapWithIndex fun i w =>
    let keys := ((DataLinking.bindings m).filter (·.sender.index = i)).map (·.senderKey)
    { w with controlled := DataLinking.stamp w.links w.controlled keys }

/-- The readers, each with the keys stamped under which it is found bound. -/
def stampedReaders : Store DataRead :=
  m.dataRead.mapWithIndex fun i r =>
    let keys := ((DataLinking.bindings m).filter (·.receiver.index = i)).map (·.receiverKey)
    { r with controlled := DataLinking.stamp r.links r.controlled keys }

theorem linkData_fst : m.linkData.1 =
    { m with
      data := (m.data.bindAll (DataLinking.bindings m)).1
      dataWritten := m.stampedWriters
      dataRead := m.stampedReaders } := by
  unfold linkData stampedWriters stampedReaders
  dsimp only

/-- The event bindings after relaying. -/
def relayed : BindingTable EntityId :=
  (((m.events.toList.filter Relay.isInbound).map fun b => (b, Relay.replacements m b)).foldl
    Relay.redirect (m.events, ⟨0, 0⟩)).1

theorem relay_fst : m.relay.1 = { m with events := m.relayed } := by
  unfold relay relayed
  dsimp only

theorem link_fst : m.link.1 = m.linkEvents.1.linkRequests.1.linkData.1.relay.1 := by
  unfold link
  dsimp only

end Model

/-- Requests are found from the operations and the deployment alone. -/
theorem RequestLinking.bindings_congr {m m' : Model} (hdeployment : m'.deployment = m.deployment)
    (hsend : m'.requestsSend = m.requestsSend)
    (hreceived : m'.requestsReceived = m.requestsReceived) : bindings m' = bindings m := by
  simp only [bindings, Model.parties, Model.store, pairKeys, hdeployment, hsend, hreceived]

/-- Data is found from the operations and the deployment alone. -/
theorem DataLinking.bindings_congr {m m' : Model} (hdeployment : m'.deployment = m.deployment)
    (hwritten : m'.dataWritten = m.dataWritten) (hread : m'.dataRead = m.dataRead) :
    bindings m' = bindings m := by
  simp only [bindings, Model.parties, Model.store, pairKeys, hdeployment, hwritten, hread]

/-- Relaying goes by the event bindings and the dynamic triggers alone. -/
theorem Model.relayed_congr {m m' : Model} (hevents : m'.events = m.events)
    (hsend : m'.dynamicTriggersSend = m.dynamicTriggersSend)
    (hreceived : m'.dynamicTriggersReceived = m.dynamicTriggersReceived) :
    m'.relayed = m.relayed := by
  have hreplacements : Relay.replacements m' = Relay.replacements m := by
    funext b
    simp only [Relay.replacements, Relay.targets, Relay.sendingSide?, Relay.outBindings, hevents,
      hsend, hreceived]
  rw [relayed, relayed, hevents, hreplacements]

/-- A linked model is the one before with its tables filled and its data keys stamped. -/
theorem Model.link_fst_eq (m : Model) : m.link.1 =
    { m with
      events := m.linkEvents.1.relayed
      requests := (m.requests.bindAll (RequestLinking.bindings m)).1
      data := (m.data.bindAll (DataLinking.bindings m)).1
      externals := m.linkEvents.1.externals
      dataWritten := m.stampedWriters
      dataRead := m.stampedReaders } := by
  have hrequests : RequestLinking.bindings m.linkEvents.1 = RequestLinking.bindings m := by
    rw [linkEvents_fst]
    exact RequestLinking.bindings_congr rfl rfl rfl
  have hdata : DataLinking.bindings m.linkEvents.1.linkRequests.1 = DataLinking.bindings m := by
    rw [linkRequests_fst, linkEvents_fst]
    exact DataLinking.bindings_congr rfl rfl rfl
  have hevents : m.linkEvents.1.linkRequests.1.linkData.1.relayed = m.linkEvents.1.relayed := by
    rw [linkData_fst, linkRequests_fst]
    exact relayed_congr rfl rfl rfl
  rw [link_fst, relay_fst, hevents, linkData_fst, stampedWriters, stampedReaders, hdata,
    linkRequests_fst, hrequests, linkEvents_fst]
  rfl

/-- A model that is built is linked from the entities of the project. -/
theorem Builder.Builds.exists_steps {b : Builder} {m : Model} (h : b.Builds m) :
    ∃ m₀ : Model, m₀.IsPopulated b.project ∧ m =
      { m₀ with
        events := m₀.linkEvents.1.relayed
        requests := (m₀.requests.bindAll (RequestLinking.bindings m₀)).1
        data := (m₀.data.bindAll (DataLinking.bindings m₀)).1
        externals := m₀.linkEvents.1.externals
        dataWritten := m₀.stampedWriters
        dataRead := m₀.stampedReaders } := by
  obtain ⟨m₀, hm₀, hm⟩ := h.exists_populated
  exact ⟨m₀, hm₀, hm.trans m₀.link_fst_eq⟩

/-- A model that is built is one of the entities of the project, with its tables filled. -/
theorem Builder.Builds.exists_linked {b : Builder} {m : Model} (h : b.Builds m) :
    ∃ m₀ : Model, m₀.IsPopulated b.project ∧ ∃ externals dataWritten dataRead data, m =
      { m₀ with
        events := m₀.linkEvents.1.relayed
        requests := (m₀.requests.bindAll (RequestLinking.bindings m₀)).1
        data := data
        externals := externals
        dataWritten := dataWritten
        dataRead := dataRead } := by
  obtain ⟨m₀, hm₀, hm⟩ := h.exists_steps
  exact ⟨m₀, hm₀, _, _, _, _, hm⟩

end Ecoa
