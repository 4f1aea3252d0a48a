import Ecoa.Model.Basic

/-!
# Relays

A dynamic trigger passes on what comes to its `in` operation to the receivers of its `out`
operation. Relaying binds each sender to these receivers and takes its binding to the trigger
away.
-/

namespace Ecoa

namespace Relay

/-- The operation in a key of a dynamic trigger. -/
def operation? (key : String) : Option String := (Text.fieldsOf ':' key)[1]?

/-- The sending side of a dynamic trigger, by its receiving side. -/
def sendingSide? (m : Model) (received : EntityId) : Option EntityId :=
  (m.dynamicTriggersReceived.get? received.index).bind fun trigger =>
    ((m.dynamicTriggersSend.group trigger.component).find? (·.2.name = trigger.name)).map
      fun found => ⟨.dynamicTriggerSend, found.1⟩

/-- The bindings of a sender under its first `out` key. -/
def outBindings (m : Model) (sender : EntityId) : List (Binding EntityId) :=
  let own := m.events.toList.filter (·.sender = sender)
  match own.find? fun b => operation? b.senderKey = some "out" with
  | some first => own.filter (·.senderKey = first.senderKey)
  | none => []

/-- What stands behind a dynamic trigger. -/
def targets (m : Model) (received : EntityId) : List (Binding EntityId) :=
  match sendingSide? m received with
  | some sender => outBindings m sender
  | none => []

/-- The binding brings events of a module or an external to a dynamic trigger. -/
def isInbound (b : Binding EntityId) : Bool :=
  (b.sender.kind = .eventSend ∨ b.sender.kind = .external) ∧
    b.receiver.kind = .dynamicTriggerReceived ∧ operation? b.receiverKey = some "in"

/-- The bindings that take the place of an inbound one. -/
def replacements (m : Model) (b : Binding EntityId) : List (Binding EntityId) :=
  (targets m b.receiver).map fun t =>
    { b with receiver := t.receiver, receiverKey := t.receiverKey }

/-- How many bindings were taken away and how many are new. -/
structure Counts where
  redirected : Nat
  added : Nat

/-- Put `new` in the place of `b`. -/
def redirect (state : BindingTable EntityId × Counts)
    (step : Binding EntityId × List (Binding EntityId)) : BindingTable EntityId × Counts :=
  let (t, added) := state.1.bindAll step.2
  let (t, removed) := t.unbind step.1
  (t, ⟨state.2.redirected + (if removed then 1 else 0), state.2.added + added⟩)

end Relay

namespace Model

/-- Redirect all inbound bindings; what stands behind each trigger is found beforehand. -/
def relay (m : Model) : Model × Relay.Counts :=
  let steps := (m.events.toList.filter Relay.isInbound).map fun b => (b, Relay.replacements m b)
  let (events, counts) := steps.foldl Relay.redirect (m.events, ⟨0, 0⟩)
  ({ m with events := events }, counts)

end Model

end Ecoa
