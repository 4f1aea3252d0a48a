import Ecoa.Linking.Pairing

/-!
# Data bindings

A writer is bound to a reader of its own implementation when both declare each other, and over a
wire from a service of the writer to a reference of the reader. Each side keeps for each of its
bound keys whether the link is controlled.
-/

namespace Ecoa

namespace DataLinking

def pairKeys (m : Model) (writer reader : Party) (p : LinkPair) : List (String × String) :=
  match p.senderDeclared.kind, p.receiverDeclared.kind with
  | .moduleInstance, .moduleInstance =>
    if p.isMutual then m.deployment.directKeys .withOperation writer reader p else []
  | .service, .reference => m.deployment.wiredKeys .withOperation writer reader p
  | _, _ => []

def bindings (m : Model) : List (Binding EntityId) :=
  let readers := m.parties .dataRead
  (m.parties .dataWritten).flatMap fun writer => readers.flatMap fun reader =>
    (LinkPair.all writer.links reader.links).flatMap fun p =>
      bindingsUnder writer.id reader.id (pairKeys m writer reader p)

/-- Whether a key is controlled: its first field is the instance whose first own endpoint says. -/
def isControlled (links : Links) (key : String) : Bool :=
  let instanceName := (Text.fieldsOf ':' key).headD ""
  match links.find? (·.1.instanceName = instanceName) with
  | some own => own.1.controlled.getD true
  | none => true

/-- Stamp keys with their flags. -/
def stamp (links : Links) (flags : OrderedMap String Bool) (keys : List String) :
    OrderedMap String Bool :=
  keys.foldl (fun flags key => flags.insert key (isControlled links key)) flags

end DataLinking

namespace Model

/-- Bind all data, stamp the keys of both sides, and count the new bindings. -/
def linkData (m : Model) : Model × Nat :=
  let found := DataLinking.bindings m
  let (data, added) := m.data.bindAll found
  let dataWritten := m.dataWritten.mapWithIndex fun i w =>
    let keys := (found.filter (·.sender.index = i)).map (·.senderKey)
    { w with controlled := DataLinking.stamp w.links w.controlled keys }
  let dataRead := m.dataRead.mapWithIndex fun i r =>
    let keys := (found.filter (·.receiver.index = i)).map (·.receiverKey)
    { r with controlled := DataLinking.stamp r.links r.controlled keys }
  ({ m with data := data, dataWritten := dataWritten, dataRead := dataRead }, added)

end Model

end Ecoa
