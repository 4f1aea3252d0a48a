import Ecoa.Declared.Project

/-!
# Indices of declared endpoints

The links of a component implementation, seen from each endpoint. A declared link joins the
endpoints on its one side to those on its other; a link with an empty side joins nothing. An
endpoint that several links declare has the opposite endpoints of all of them.
-/

namespace Ecoa

/-- The two sides of a declared link. -/
structure Join where
  left : List Endpoint
  right : List Endpoint

namespace Join

def swap (j : Join) : Join := ⟨j.right, j.left⟩

/-- A link joins something only with endpoints on both sides. -/
def isProper (j : Join) : Bool := !j.left.isEmpty && !j.right.isEmpty

end Join

/-- The endpoints on the left of joins, each with what stands on its right. -/
def Links.ofJoins (joins : List Join) : Links :=
  joins.foldl (fun links j => links.joinAll j.left j.right) []

/-- The declared endpoints of all kinds, in order, each completed by `attributes`. -/
def endpointsOf (groups : Declared.EndpointGroups)
    (attributes : Declared.Endpoint → Endpoint → Endpoint) : List Endpoint :=
  groups.toList.flatMap fun g =>
    g.2.map fun e => attributes e (.new g.1 e.instanceName e.operation)

/-- An endpoint activates its module unless it says otherwise. -/
def withActivation (e : Declared.Endpoint) (endpoint : Endpoint) : Endpoint :=
  { endpoint with activating := some (e.activating.getD true) }

namespace Declared

/-- Only the senders of events keep their language. -/
def EventLink.join (l : EventLink) : Join where
  left := endpointsOf l.senders fun e endpoint =>
    match e.language with
    | some language => (withActivation e endpoint).withLanguage language
    | none => withActivation e endpoint
  right := endpointsOf l.receivers withActivation

/-- A request has one server, the first that is declared. -/
def RequestLink.join (l : RequestLink) : Join where
  left := endpointsOf l.clients withActivation
  right := (endpointsOf l.server withActivation).take 1

def DataLink.join (l : DataLink) : Join where
  left := endpointsOf l.writers fun _ endpoint =>
    { endpoint with controlled := some l.controlled }
  right := endpointsOf l.readers fun e endpoint =>
    { withActivation e endpoint with controlled := some l.controlled }

end Declared

/-- Writers, each with the numbers of the data links that list it, in order of declaration. -/
abbrev WriterGroups := List (Endpoint × List Nat)

namespace WriterGroups

/-- Append a number unless it is in the list. -/
def addNumber (numbers : List Nat) (n : Nat) : List Nat :=
  if n ∈ numbers then numbers else numbers ++ [n]

/-- A data link lists a writer. -/
def add (groups : WriterGroups) (writer : Endpoint) (n : Nat) : WriterGroups :=
  if groups.any (·.1.id = writer.id) then
    groups.map fun e => if e.1.id = writer.id then (e.1, addNumber e.2 n) else e
  else groups ++ [(writer, [n])]

/-- The writers on the left of joins; a join that joins nothing has its number, too. -/
def ofJoins (joins : List Join) : WriterGroups :=
  (joins.zipIdx.filter (·.1.isProper)).foldl
    (fun groups j => j.1.left.foldl (fun groups writer => add groups writer j.2) groups) []

end WriterGroups

structure EndpointIndex where
  eventSenders : Links
  eventReceivers : Links
  requestClients : Links
  requestServers : Links
  dataWriters : Links
  dataReaders : Links
  writerGroups : WriterGroups

namespace EndpointIndex

def build (c : Declared.Component) : EndpointIndex :=
  let events := (c.eventLinks.map (·.join)).filter Join.isProper
  let requests := (c.requestLinks.map (·.join)).filter Join.isProper
  let data := (c.dataLinks.map (·.join)).filter Join.isProper
  { eventSenders := .ofJoins events
    eventReceivers := .ofJoins (events.map .swap)
    requestClients := .ofJoins requests
    requestServers := .ofJoins (requests.map .swap)
    dataWriters := .ofJoins data
    dataReaders := .ofJoins (data.map .swap)
    writerGroups := .ofJoins (c.dataLinks.map (·.join)) }

/-- The endpoints of an operation of given module instances. -/
def select (links : Links) (instances : List String) (operation : String) : Links :=
  links.filter fun e =>
    e.1.kind = .moduleInstance ∧ e.1.operation = operation ∧ e.1.instanceName ∈ instances

/-- The endpoints of one instance. -/
def selectInstance (links : Links) (kind : EndpointKind) (instanceName : String) : Links :=
  links.filter fun e => e.1.kind = kind ∧ e.1.instanceName = instanceName

/-- The other writers of the instance that write the data of some link together with this one. -/
def siblings (index : EndpointIndex) (writer : Endpoint) : List Endpoint :=
  match index.writerGroups.find? (·.1.id = writer.id) with
  | none => []
  | some (_, groups) =>
    (index.writerGroups.filter fun e => e.1.id ≠ writer.id ∧
      e.1.instanceName = writer.instanceName ∧ e.1.operation ≠ writer.operation ∧
        ∃ n ∈ e.2, n ∈ groups).map Prod.fst

end EndpointIndex

end Ecoa
