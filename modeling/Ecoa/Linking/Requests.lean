import Ecoa.Linking.Pairing

/-!
# Request bindings

A client is bound to a server of its own implementation when both declare each other, and over a
wire from a reference of the client to a service of the server.
-/

namespace Ecoa

namespace RequestLinking

def pairKeys (m : Model) (client server : Party) (p : LinkPair) : List (String × String) :=
  match p.senderDeclared.kind, p.receiverDeclared.kind with
  | .moduleInstance, .moduleInstance =>
    if p.isMutual then m.deployment.directKeys .plain client server p else []
  | .reference, .service => m.deployment.wiredKeys .plain client server p
  | _, _ => []

def bindings (m : Model) : List (Binding EntityId) :=
  let servers := m.parties .requestReceived
  (m.parties .requestSend).flatMap fun client => servers.flatMap fun server =>
    (LinkPair.all client.links server.links).flatMap fun p =>
      bindingsUnder client.id server.id (pairKeys m client server p)

end RequestLinking

namespace Model

/-- Bind all requests, and count the new bindings. -/
def linkRequests (m : Model) : Model × Nat :=
  let (requests, added) := m.requests.bindAll (RequestLinking.bindings m)
  ({ m with requests := requests }, added)

end Model

end Ecoa
