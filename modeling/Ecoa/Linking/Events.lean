import Ecoa.Linking.Pairing

/-!
# Event bindings

Events go from event sends, externals, triggers and the out side of dynamic triggers to event
receptions and the in side of dynamic triggers. A route says how two declared endpoints are
joined; the phases give the order in which entities are compared. An external takes its inputs
from the first receiver to which it is bound.
-/

namespace Ecoa

namespace EventLinking

/-- The way from a sender to a receiver. -/
inductive Route where
  | direct
  | wired
  | external
  | externalToDynamicTrigger
  | trigger
  | dynamicTriggerOut
  | toDynamicTrigger
  deriving DecidableEq

/-- The kinds of sender and receiver that are compared, in order. -/
def phases : List (EntityKind × EntityKind) :=
  [(.eventSend, .eventReceived), (.external, .eventReceived), (.external, .dynamicTriggerReceived),
   (.trigger, .eventReceived), (.dynamicTriggerSend, .eventReceived),
   (.eventSend, .dynamicTriggerReceived)]

/-- The route between two kinds of entity that declare endpoints of these kinds. Nothing goes
from a trigger to a dynamic trigger. -/
def route? (sender receiver : EntityKind) (senderDeclared receiverDeclared : EndpointKind) :
    Option Route :=
  match sender, receiver with
  | .eventSend, .eventReceived =>
    if senderDeclared = .moduleInstance ∧ receiverDeclared = .moduleInstance then some .direct
    else if senderDeclared.isWired ∧ receiverDeclared.isWired then some .wired
    else none
  | .external, .eventReceived =>
    if senderDeclared = .moduleInstance ∧ receiverDeclared = .external then some .external
    else none
  | .external, .dynamicTriggerReceived =>
    if senderDeclared = .dynamicTrigger ∧ receiverDeclared = .external then
      some .externalToDynamicTrigger
    else none
  | .trigger, .eventReceived =>
    if senderDeclared = .moduleInstance ∧ receiverDeclared = .trigger then some .trigger else none
  | .dynamicTriggerSend, .eventReceived =>
    if senderDeclared = .moduleInstance ∧ receiverDeclared = .dynamicTrigger then
      some .dynamicTriggerOut
    else none
  | .eventSend, .dynamicTriggerReceived =>
    if senderDeclared = .dynamicTrigger ∧ receiverDeclared = .moduleInstance then
      some .toDynamicTrigger
    else none
  | _, _ => none

/-- Two entities that are linked, with the keys of their bindings. -/
structure Match where
  sender : EntityId
  receiver : EntityId
  route : Route
  keys : List (String × String)

def externalKey (m : Model) (sender : Party) : String :=
  ((m.externals.get? sender.id.index).map External.key).getD ""

/-- The keys under which a route binds two entities. -/
def routeKeys (m : Model) (route : Route) (sender receiver : Party) (p : LinkPair) :
    List (String × String) :=
  let senderKeys := m.deployment.keysOf .plain sender.component p.senderOwn
  let receiverKeys := m.deployment.keysOf .plain receiver.component p.receiverOwn
  match route with
  | .direct => m.deployment.directKeys .plain sender receiver p
  | .wired => m.deployment.wiredKeys .plain sender receiver p
  | .external => receiverKeys.map (externalKey m sender, ·)
  | .externalToDynamicTrigger => [(externalKey m sender, triggerKey p.receiverOwn)]
  | .trigger => receiverKeys.map (p.senderOwn.instanceName, ·)
  | .dynamicTriggerOut => receiverKeys.map (triggerKey p.senderOwn, ·)
  | .toDynamicTrigger => senderKeys.map (·, triggerKey p.receiverOwn)

/-- Off the wires, both sides declare each other within one implementation. -/
def isAdmitted (route : Route) (sender receiver : Party) (p : LinkPair) : Bool :=
  route = .wired ∨ (p.isMutual ∧ sender.component = receiver.component)

def matchPair (m : Model) (sender receiver : Party) (p : LinkPair) : Option Match :=
  (route? sender.id.kind receiver.id.kind p.senderDeclared.kind p.receiverDeclared.kind).bind
    fun route =>
      if isAdmitted route sender receiver p then
        some ⟨sender.id, receiver.id, route, routeKeys m route sender receiver p⟩
      else none

def phaseMatches (m : Model) (phase : EntityKind × EntityKind) : List Match :=
  let receivers := m.parties phase.2
  (m.parties phase.1).flatMap fun sender => receivers.flatMap fun receiver =>
    (LinkPair.all sender.links receiver.links).filterMap (matchPair m sender receiver)

def allMatches (m : Model) : List Match := phases.flatMap (phaseMatches m)

def Match.bindings (x : Match) : List (Binding EntityId) :=
  bindingsUnder x.sender x.receiver x.keys

/-- The parameters that a receiver hands to an external. -/
def receiverInputs (m : Model) (receiver : EntityId) : Option (List Parameter) :=
  match receiver.kind with
  | .eventReceived => (m.eventsReceived.get? receiver.index).map (·.inputs)
  | .dynamicTriggerReceived =>
    (m.dynamicTriggersReceived.get? receiver.index).map (·.parameters)
  | _ => none

/-- The inputs of an external: those that it has, or those of the first receiver bound to it. -/
def externalInputs (m : Model) (found : List Match) (index : Nat) (e : External) :
    List Parameter :=
  if e.inputs.isEmpty then
    match found.find? fun x => x.sender = ⟨.external, index⟩ && !x.keys.isEmpty with
    | some x => (receiverInputs m x.receiver).getD []
    | none => []
  else e.inputs

end EventLinking

namespace Model

/-- Bind all events, and count the new bindings. -/
def linkEvents (m : Model) : Model × Nat :=
  let found := EventLinking.allMatches m
  let (events, added) := m.events.bindAll (found.flatMap (·.bindings))
  let externals := m.externals.mapWithIndex fun i e =>
    { e with inputs := EventLinking.externalInputs m found i e }
  ({ m with events := events, externals := externals }, added)

end Model

end Ecoa
