import Ecoa.BindingTable
import Ecoa.Deployment
import Ecoa.Entity.Basic
import Ecoa.Entity.Store
import Ecoa.Type.Registry

/-!
# Models

A model holds the entities of all component implementations, one store for each kind, and the
bindings between them in three tables: events, requests and data.
-/

namespace Ecoa

structure Model where
  registry : TypeRegistry
  deployment : Deployment
  /-- The declarations of each library in emission order. -/
  sortedTypes : OrderedMap String (List TypeDecl)
  /-- The libraries that each component implementation uses. -/
  uses : OrderedMap String (List String)
  /-- The module implementations; each has a log and a time service. -/
  modules : OrderedMap String ModuleScope
  eventsSend : Store Event
  eventsReceived : Store Event
  requestsSend : Store RequestSend
  requestsReceived : Store RequestReceived
  dataRead : Store DataRead
  dataWritten : Store DataWritten
  properties : Store Property
  pinfos : Store Pinfo
  externals : Store External
  triggers : Store Trigger
  dynamicTriggersSend : Store DynamicTrigger
  dynamicTriggersReceived : Store DynamicTrigger
  events : BindingTable EntityId
  requests : BindingTable EntityId
  data : BindingTable EntityId

/-- An entity and the group under which it is filed. -/
structure Entry where
  kind : EntityKind
  group : String
  entity : Entity kind

namespace Model

def empty (registry : TypeRegistry) (deployment : Deployment) : Model where
  registry := registry
  deployment := deployment
  sortedTypes := ∅
  uses := ∅
  modules := ∅
  eventsSend := .empty
  eventsReceived := .empty
  requestsSend := .empty
  requestsReceived := .empty
  dataRead := .empty
  dataWritten := .empty
  properties := .empty
  pinfos := .empty
  externals := .empty
  triggers := .empty
  dynamicTriggersSend := .empty
  dynamicTriggersReceived := .empty
  events := .empty
  requests := .empty
  data := .empty

def store (m : Model) : (kind : EntityKind) → Store (Entity kind)
  | .eventSend => m.eventsSend
  | .eventReceived => m.eventsReceived
  | .requestSend => m.requestsSend
  | .requestReceived => m.requestsReceived
  | .dataRead => m.dataRead
  | .dataWritten => m.dataWritten
  | .property => m.properties
  | .pinfo => m.pinfos
  | .external => m.externals
  | .trigger => m.triggers
  | .dynamicTriggerSend => m.dynamicTriggersSend
  | .dynamicTriggerReceived => m.dynamicTriggersReceived

def insert (m : Model) : Entry → Model
  | ⟨.eventSend, g, e⟩ => { m with eventsSend := m.eventsSend.insert g e }
  | ⟨.eventReceived, g, e⟩ => { m with eventsReceived := m.eventsReceived.insert g e }
  | ⟨.requestSend, g, e⟩ => { m with requestsSend := m.requestsSend.insert g e }
  | ⟨.requestReceived, g, e⟩ => { m with requestsReceived := m.requestsReceived.insert g e }
  | ⟨.dataRead, g, e⟩ => { m with dataRead := m.dataRead.insert g e }
  | ⟨.dataWritten, g, e⟩ => { m with dataWritten := m.dataWritten.insert g e }
  | ⟨.property, g, e⟩ => { m with properties := m.properties.insert g e }
  | ⟨.pinfo, g, e⟩ => { m with pinfos := m.pinfos.insert g e }
  | ⟨.external, g, e⟩ => { m with externals := m.externals.insert g e }
  | ⟨.trigger, g, e⟩ => { m with triggers := m.triggers.insert g e }
  | ⟨.dynamicTriggerSend, g, e⟩ =>
    { m with dynamicTriggersSend := m.dynamicTriggersSend.insert g e }
  | ⟨.dynamicTriggerReceived, g, e⟩ =>
    { m with dynamicTriggersReceived := m.dynamicTriggersReceived.insert g e }

/-- An entity is inserted into the store of its kind, and into no other. -/
theorem store_insert (m : Model) (entry : Entry) (kind : EntityKind) :
    (m.insert entry).store kind =
      if h : entry.kind = kind then (m.store kind).insert entry.group (h ▸ entry.entity)
      else m.store kind := by
  obtain ⟨k, g, e⟩ := entry
  cases k <;> cases kind <;> rfl

def entity? (m : Model) (id : EntityId) : Option (Entity id.kind) := (m.store id.kind).get? id.index

def entityName? (m : Model) (id : EntityId) : Option String :=
  (m.entity? id).map (Entity.name id.kind)

/-- The ids of all entities of a kind. -/
def ids (m : Model) (kind : EntityKind) : List EntityId :=
  (List.range (m.store kind).size).map (⟨kind, ·⟩)

/-- The entities that have endpoints, kind by kind. -/
def linked (m : Model) : List ((id : EntityId) × Entity id.kind) :=
  (EntityKind.all.filter (·.isLinked)).flatMap fun kind =>
    (m.store kind).numbered.map fun e => ⟨⟨kind, e.1⟩, e.2⟩

/-- Requests are bound in their own table; every other sender is looked up among the events. -/
def receiversOf? (m : Model) (sender : EntityId) : Option (Peers EntityId) :=
  if sender.kind = .requestSend then m.requests.receiversOf? sender
  else m.events.receiversOf? sender

def sendersOf? (m : Model) (receiver : EntityId) : Option (Peers EntityId) :=
  if receiver.kind = .requestReceived then m.requests.sendersOf? receiver
  else m.events.sendersOf? receiver

def readersOf? (m : Model) (writer : EntityId) : Option (Peers EntityId) :=
  m.data.receiversOf? writer

def writersOf? (m : Model) (reader : EntityId) : Option (Peers EntityId) :=
  m.data.sendersOf? reader

def bindingCount (m : Model) : Nat := m.events.size + m.requests.size + m.data.size

end Model

end Ecoa
