import Ecoa.Proofs.Build.Deployment
import Ecoa.Proofs.Linking.Data
import Ecoa.Proofs.Linking.Outside
import Ecoa.Proofs.Linking.Requests

/-!
# Linking by contents

Under which keys two entities are found bound depends on what they are, and on where the deployment
puts their components. It depends neither on their numbers nor on the order in which components are
deployed, so it is the same in any two models that hold the two entities.
-/

namespace Ecoa

namespace Deployment.Agrees

variable {d d' : Deployment} (h : d.Agrees d') {form : KeyForm} {x x' y y' : Party} {p : LinkPair}
  {k : String × String}

include h

theorem keysOf (form : KeyForm) (component : String) (own : Endpoint) :
    (d.keysOf form component own).Perm (d'.keysOf form component own) :=
  (h.componentNames component own.instanceName).map _

theorem mem_directKeys_iff (hx : x.component = x'.component) (hy : y.component = y'.component) :
    k ∈ d.directKeys form x y p ↔ k ∈ d'.directKeys form x' y' p := by
  rw [mem_directKeys, mem_directKeys, hx, hy, (h.keysOf _ _ _).mem_iff, (h.keysOf _ _ _).mem_iff]

theorem mem_wiredKeys_iff (hx : x.component = x'.component) (hy : y.component = y'.component) :
    k ∈ d.wiredKeys form x y p ↔ k ∈ d'.wiredKeys form x' y' p := by
  simp only [mem_wiredKeys, hx, hy, (h.componentNames _ _).mem_iff, wiredServices_eq, h.wires]

end Deployment.Agrees

variable {m m' : Model} (h : m.deployment.Agrees m'.deployment) {kind kind' : EntityKind}
  {s s' r r' : Nat} {e : Entity kind} {f : Entity kind'} {sk rk : String} {k : String × String}

/-! ## Events -/

namespace EventLinking

/-- The kind of entity from which a route goes. -/
def Route.senderKind : Route → EntityKind
  | .direct | .wired | .toDynamicTrigger => .eventSend
  | .external | .externalToDynamicTrigger => .external
  | .trigger => .trigger
  | .dynamicTriggerOut => .dynamicTriggerSend

theorem senderKind_of_route? {a b : EndpointKind} {route : Route}
    (hroute : route? kind kind' a b = some route) : kind = route.senderKind := by
  unfold route? at hroute
  split at hroute
  case h_1 =>
    split at hroute
    · cases hroute
      rfl
    · obtain ⟨-, hroute⟩ := Option.ite_none_right_eq_some.mp hroute
      cases hroute
      rfl
  case h_7 => cases hroute
  all_goals
    obtain ⟨-, hroute⟩ := Option.ite_none_right_eq_some.mp hroute
    cases hroute
    rfl

theorem externalKey_congr (hs : (m.store kind).get? s = some e)
    (hs' : (m'.store kind).get? s' = some e) (hkind : kind = .external) :
    externalKey m (.of kind s e) = externalKey m' (.of kind s' e) := by
  subst hkind
  rw [externalKey_of hs, externalKey_of hs']

section

variable (hs : (m.store kind).get? s = some e) (hs' : (m'.store kind).get? s' = some e)
  {p : LinkPair} {route : Route}
  (hroute : route? kind kind' p.senderDeclared.kind p.receiverDeclared.kind = some route)

include h hs hs' hroute

theorem mem_routeKeys_congr :
    k ∈ routeKeys m route (.of kind s e) (.of kind' r f) p ↔
      k ∈ routeKeys m' route (.of kind s' e) (.of kind' r' f) p := by
  have hexternal := externalKey_congr hs hs'
  have hkind := senderKind_of_route? hroute
  cases route with
  | direct => exact h.mem_directKeys_iff rfl rfl
  | wired => exact h.mem_wiredKeys_iff rfl rfl
  | external =>
    simp only [routeKeys, hexternal hkind]
    exact ((h.keysOf .plain _ p.receiverOwn).map _).mem_iff
  | externalToDynamicTrigger => simp only [routeKeys, hexternal hkind]
  | trigger => exact ((h.keysOf .plain _ p.receiverOwn).map _).mem_iff
  | dynamicTriggerOut => exact ((h.keysOf .plain _ p.receiverOwn).map _).mem_iff
  | toDynamicTrigger => exact ((h.keysOf .plain _ p.senderOwn).map _).mem_iff

/-- What is no operation of a module is bound under one key of its own, as many times. -/
theorem map_fst_routeKeys_congr (hne : kind ≠ .eventSend) :
    (routeKeys m route (.of kind s e) (.of kind' r f) p).map Prod.fst =
      (routeKeys m' route (.of kind s' e) (.of kind' r' f) p).map Prod.fst := by
  have hexternal := externalKey_congr hs hs'
  have hkind := senderKind_of_route? hroute
  have hlength := (h.keysOf .plain (f.component kind') p.receiverOwn).length_eq
  cases route with
  | direct | wired | toDynamicTrigger => exact absurd hkind hne
  | external =>
    simp only [routeKeys, hexternal hkind, List.map_map, Function.comp_def, List.map_const']
    exact congrArg (List.replicate · _) hlength
  | externalToDynamicTrigger => simp only [routeKeys, hexternal hkind]
  | trigger | dynamicTriggerOut =>
    simp only [routeKeys, List.map_map, Function.comp_def, List.map_const']
    exact congrArg (List.replicate · _) hlength

end

include h in
/-- Two entities are found bound under the same keys wherever they are. -/
theorem mem_partyKeys_congr (hs : (m.store kind).get? s = some e)
    (hs' : (m'.store kind).get? s' = some e) :
    k ∈ partyKeys m (.of kind s e) (.of kind' r f) ↔
      k ∈ partyKeys m' (.of kind s' e) (.of kind' r' f) := by
  rw [mem_partyKeys, mem_partyKeys]
  refine exists_congr fun p => and_congr_right fun _ => exists_congr fun route =>
    and_congr_right fun hroute => and_congr Iff.rfl ?_
  exact mem_routeKeys_congr h hs hs' hroute

end EventLinking

/-! ## Requests and data -/

include h in
theorem RequestLinking.mem_bindings_congr {e : RequestSend} {f : RequestReceived}
    (hs : m.requestsSend.get? s = some e) (hs' : m'.requestsSend.get? s' = some e)
    (hr : m.requestsReceived.get? r = some f) (hr' : m'.requestsReceived.get? r' = some f) :
    ⟨⟨.requestSend, s⟩, sk, ⟨.requestReceived, r⟩, rk⟩ ∈ bindings m ↔
      ⟨⟨.requestSend, s'⟩, sk, ⟨.requestReceived, r'⟩, rk⟩ ∈ bindings m' := by
  rw [mem_bindings hs hr, mem_bindings hs' hr']
  simp only [List.mem_flatMap, mem_pairKeys]
  refine exists_congr fun p => and_congr_right fun _ => or_congr ?_ ?_
  · exact and_congr_right fun _ => and_congr_right fun _ => h.mem_directKeys_iff rfl rfl
  · exact and_congr_right fun _ => h.mem_wiredKeys_iff rfl rfl

include h in
theorem DataLinking.mem_bindings_congr {e : DataWritten} {f : DataRead}
    (hs : m.dataWritten.get? s = some e) (hs' : m'.dataWritten.get? s' = some e)
    (hr : m.dataRead.get? r = some f) (hr' : m'.dataRead.get? r' = some f) :
    ⟨⟨.dataWritten, s⟩, sk, ⟨.dataRead, r⟩, rk⟩ ∈ bindings m ↔
      ⟨⟨.dataWritten, s'⟩, sk, ⟨.dataRead, r'⟩, rk⟩ ∈ bindings m' := by
  rw [mem_bindings hs hr, mem_bindings hs' hr']
  simp only [List.mem_flatMap, mem_pairKeys]
  refine exists_congr fun p => and_congr_right fun _ => or_congr ?_ ?_
  · exact and_congr_right fun _ => and_congr_right fun _ => h.mem_directKeys_iff rfl rfl
  · exact and_congr_right fun _ => h.mem_wiredKeys_iff rfl rfl

end Ecoa
