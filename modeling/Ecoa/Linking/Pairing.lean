import Ecoa.Model.Basic

/-!
# Pairs of endpoints

Two operations are linked when each declares the other's endpoint opposite its own, or when both
declare services that a wire joins. Here are the pairs of declarations to be compared and the keys
under which operations are bound: `instance:component`, and for data `instance:component:operation`.
-/

namespace Ecoa

/-- An entity with its declared endpoints. -/
structure Party where
  id : EntityId
  component : String
  links : Links

namespace Party

def of (kind : EntityKind) (index : Nat) (entity : Entity kind) : Party :=
  ⟨⟨kind, index⟩, entity.component kind, entity.links kind⟩

end Party

def Model.parties (m : Model) (kind : EntityKind) : List Party :=
  (m.store kind).numbered.map fun e => .of kind e.1 e.2

/-- An own endpoint of each side with one that it declares opposite. -/
structure LinkPair where
  senderOwn : Endpoint
  senderDeclared : Endpoint
  receiverOwn : Endpoint
  receiverDeclared : Endpoint

namespace LinkPair

/-- Each side declares the other. -/
def isMutual (p : LinkPair) : Bool :=
  p.senderDeclared.id = p.receiverOwn.id ∧ p.receiverDeclared.id = p.senderOwn.id

def all (sender receiver : Links) : List LinkPair :=
  sender.flatMap fun s => s.2.flatMap fun declared =>
    receiver.flatMap fun r => r.2.map fun opposite => ⟨s.1, declared, r.1, opposite⟩

end LinkPair

/-- How the key of a module operation is written. -/
inductive KeyForm where
  | plain
  | withOperation

def KeyForm.key (form : KeyForm) (e : Endpoint) (component : String) : String :=
  match form with
  | .plain => e.instanceName ++ ":" ++ component
  | .withOperation => e.instanceName ++ ":" ++ component ++ ":" ++ e.operation

/-- The key of an operation of a dynamic trigger. -/
def triggerKey (e : Endpoint) : String := e.instanceName ++ ":" ++ e.operation

namespace Deployment

/-- The keys of an endpoint, one for each component instance. -/
def keysOf (d : Deployment) (form : KeyForm) (component : String) (own : Endpoint) : List String :=
  (d.componentNames component own.instanceName).map (form.key own)

/-- Every key of the sender with every key of the receiver, within one implementation. -/
def directKeys (d : Deployment) (form : KeyForm) (sender receiver : Party) (p : LinkPair) :
    List (String × String) :=
  if sender.component = receiver.component then
    (d.keysOf form sender.component p.senderOwn).flatMap fun s =>
      (d.keysOf form receiver.component p.receiverOwn).map fun r => (s, r)
  else []

/-- The keys of the component instances that a wire joins. -/
def wiredKeys (d : Deployment) (form : KeyForm) (sender receiver : Party) (p : LinkPair) :
    List (String × String) :=
  if p.senderDeclared.operation = p.receiverDeclared.operation then
    let receivers := d.componentNames receiver.component p.receiverOwn.instanceName
    (d.componentNames sender.component p.senderOwn.instanceName).flatMap fun component =>
      (d.wiredServices ⟨component, p.senderDeclared.instanceName⟩).filterMap fun far =>
        if far.service = p.receiverDeclared.instanceName ∧ far.component ∈ receivers then
          some (form.key p.senderOwn component, form.key p.receiverOwn far.component)
        else none
  else []

end Deployment

/-- The bindings of two entities under pairs of keys. -/
def bindingsUnder (sender receiver : EntityId) (keys : List (String × String)) :
    List (Binding EntityId) :=
  keys.map fun k => ⟨sender, k.1, receiver, k.2⟩

end Ecoa
