import Ecoa.Proofs.Linking.Parties
import Ecoa.Proofs.Linking.Steps
import Mathlib.Data.List.Nodup

/-!
# Which requests are bound

A client is bound to a server by a request link of their component, or by a request link of each of
their components to a reference and from a service that a wire joins.
-/

namespace Ecoa

namespace RequestLinking

variable {m : Model}

theorem mem_pairKeys {x y : Party} {p : LinkPair} {k : String × String} :
    k ∈ pairKeys m x y p ↔
      ((p.senderDeclared.kind = .moduleInstance ∧ p.receiverDeclared.kind = .moduleInstance) ∧
        p.isMutual = true ∧ k ∈ m.deployment.directKeys .plain x y p) ∨
      ((p.senderDeclared.kind = .reference ∧ p.receiverDeclared.kind = .service) ∧
        k ∈ m.deployment.wiredKeys .plain x y p) := by
  unfold pairKeys
  split
  · next h h' =>
    rw [h, h']
    cases p.isMutual <;> simp
  · next h h' => simp [h, h']
  · next h h' =>
    simp only [List.not_mem_nil, false_iff]
    rintro (⟨⟨hs, hr⟩, -⟩ | ⟨⟨hs, hr⟩, -⟩)
    · exact h hs hr
    · exact h' hs hr

theorem bindings_eq : bindings m = (m.parties .requestSend).flatMap fun x =>
    (m.parties .requestReceived).flatMap fun y => bindingsUnder x.id y.id
      ((LinkPair.all x.links y.links).flatMap (pairKeys m x y)) := by
  simp only [bindings, bindingsUnder, List.map_flatMap]

/-- The keys under which a client is bound to a server. -/
theorem mem_bindings {s r : Nat} {e : RequestSend} {f : RequestReceived}
    (hs : m.requestsSend.get? s = some e) (hr : m.requestsReceived.get? r = some f)
    {sk rk : String} :
    ⟨⟨.requestSend, s⟩, sk, ⟨.requestReceived, r⟩, rk⟩ ∈ bindings m ↔
      (sk, rk) ∈ (LinkPair.all e.links f.links).flatMap
        (pairKeys m (.of .requestSend s e) (.of .requestReceived r f)) := by
  rw [bindings_eq]
  exact Model.mem_flatMap_parties .requestSend .requestReceived hs hr

end RequestLinking

/-- The client reaches the server when they run under these component instances: in one component by
a request link, or from a reference to a service that a wire joins. -/
def Declared.Project.Calls (p : Declared.Project) (c d : Declared.Component)
    (client server : Port) (u v : String) : Prop :=
  (c = d ∧ c.Requests client server) ∨
    ∃ reference service operation, c.Requests client ⟨.reference, reference, operation⟩ ∧
      d.Requests ⟨.service, service, operation⟩ server ∧
        p.assembly.Joins ⟨u, reference⟩ ⟨v, service⟩

namespace Model

variable {m : Model} {p : Declared.Project}

/-- Linking binds the requests that are found, and no others. -/
theorem IsPopulated.contains_requests (h : m.IsPopulated p) {x : Binding EntityId} :
    (m.requests.bindAll (RequestLinking.bindings m)).1.contains x = true ↔
      x ∈ RequestLinking.bindings m := by
  rw [← BindingTable.mem_toList, BindingTable.mem_toList_bindAll, h.requests]
  simp

end Model

/-- The pairs of declarations of two operations give the keys under which one calls the other. -/
theorem RequestLinking.mem_keys {m : Model} {p : Declared.Project} (hm : m.IsPopulated p)
    {x y : Party} {c d : Declared.Component} {implementation implementation' name name' : String}
    (hx : x.IsOperation LinkFamily.requests.senders c implementation name)
    (hy : y.IsOperation LinkFamily.requests.receivers d implementation' name')
    (hsame : c.name = d.name → c = d) {k : String × String} :
    k ∈ (LinkPair.all x.links y.links).flatMap (pairKeys m x y) ↔
      ∃ i u j v, m.deployment.Runs c implementation i u ∧ m.deployment.Runs d implementation' j v ∧
        k = (i ++ ":" ++ u, j ++ ":" ++ v) ∧
          p.Calls c d ⟨.moduleInstance, i, name⟩ ⟨.moduleInstance, j, name'⟩ u v := by
  refine (m.deployment.mem_flatMap_pairKeys .plain hx hy hsame fun _ => mem_pairKeys).trans ?_
  simp only [hm.wires]
  exact Iff.rfl

/-- A client is bound to a server exactly under the keys of module instances of theirs of which one
reaches the other. -/
theorem Builder.Builds.contains_requests_iff {b : Builder} {m : Model} (hb : b.Builds m)
    (hnames : (b.project.components.map (·.name)).Nodup) {s r : Nat} {e : RequestSend}
    {f : RequestReceived} (hs : m.requestsSend.get? s = some e)
    (hr : m.requestsReceived.get? r = some f) (sk rk : String) :
    m.requests.contains ⟨⟨.requestSend, s⟩, sk, ⟨.requestReceived, r⟩, rk⟩ = true ↔
      ∃ c ∈ b.project.components, ∃ d ∈ b.project.components,
        c.name = e.scope.component ∧ d.name = f.scope.component ∧
          ∃ i u j v, m.deployment.Runs c e.scope.moduleImplementation i u ∧
            m.deployment.Runs d f.scope.moduleImplementation j v ∧
            sk = i ++ ":" ++ u ∧ rk = j ++ ":" ++ v ∧
            b.project.Calls c d ⟨.moduleInstance, i, e.name⟩ ⟨.moduleInstance, j, f.name⟩ u v := by
  obtain ⟨m₀, hm₀, _, _, _, _, rfl⟩ := hb.exists_linked
  dsimp only at hs hr ⊢
  rw [hm₀.contains_requests, RequestLinking.mem_bindings hs hr]
  obtain ⟨c, hc, hcname, hclient⟩ := hm₀.exists_operation .requestSend hs
    LinkFamily.requests.senders fun _ _ => id
  obtain ⟨d, hd, hdname, hserver⟩ := hm₀.exists_operation .requestReceived hr
    LinkFamily.requests.receivers fun _ _ => id
  have hinj := List.inj_on_of_nodup_map hnames
  refine (RequestLinking.mem_keys hm₀ hclient hserver (hinj hc hd)).trans ?_
  constructor
  · rintro ⟨i, u, j, v, hi, hj, hk, h⟩
    obtain ⟨hsk, hrk⟩ := Prod.ext_iff.mp hk
    exact ⟨c, hc, d, hd, hcname, hdname, i, u, j, v, hi, hj, hsk, hrk, h⟩
  · rintro ⟨c', hc', d', hd', hcname', hdname', i, u, j, v, hi, hj, hsk, hrk, h⟩
    cases hinj hc' hc (hcname'.trans hcname.symm)
    cases hinj hd' hd (hdname'.trans hdname.symm)
    exact ⟨i, u, j, v, hi, hj, Prod.ext hsk hrk, h⟩

/-! ## A request over a wire -/

namespace Declared

/-- A component with one client, which asks through the reference `r`. -/
def askingComponent : Component where
  name := "A"
  directory := "A"
  uses := []
  moduleTypes := [⟨"Asking", { Operations.none with
    requestSent := [⟨"ask", [], [], true⟩] }, [], [], []⟩]
  moduleImplementations := [⟨"asking", "Asking", "C"⟩]
  moduleInstances := [⟨"client", "asking", [], []⟩]
  triggerInstances := []
  dynamicTriggerInstances := []
  eventLinks := []
  requestLinks := [⟨.ofList [(.moduleInstance, [⟨"client", "ask", none, none⟩])],
    .ofList [(.reference, [⟨"r", "get", none, none⟩])]⟩]
  dataLinks := []

/-- A component with one server, which answers at the service `s`. -/
def answeringComponent : Component where
  name := "B"
  directory := "B"
  uses := []
  moduleTypes := [⟨"Answering", { Operations.none with
    requestReceived := [⟨"answer", [], [], true⟩] }, [], [], []⟩]
  moduleImplementations := [⟨"answering", "Answering", "C"⟩]
  moduleInstances := [⟨"server", "answering", [], []⟩]
  triggerInstances := []
  dynamicTriggerInstances := []
  eventLinks := []
  requestLinks := [⟨.ofList [(.service, [⟨"s", "get", none, none⟩])],
    .ofList [(.moduleInstance, [⟨"server", "answer", none, none⟩])]⟩]
  dataLinks := []

/-- The wire is written from the service to the reference, against the call. -/
def askingProject : Project where
  libraries := []
  components := [askingComponent, answeringComponent]
  deployment := ⟨[⟨"pd", [⟨"a", "client"⟩, ⟨"b", "server"⟩]⟩]⟩
  assembly := ⟨[⟨"a", "A", ∅⟩, ⟨"b", "B", ∅⟩], [⟨⟨"b", "s"⟩, ⟨"a", "r"⟩⟩]⟩

end Declared

open Declared in
theorem Builder.Builds.contains_requests_askingProject :
    ∃ m, (Builder.new askingProject).Builds m ∧
      (askingProject.components.map (·.name)).Nodup ∧
      ∃ e f, m.requestsSend.get? 0 = some e ∧ m.requestsReceived.get? 0 = some f ∧
        m.requests.contains
          ⟨⟨.requestSend, 0⟩, "client:a", ⟨.requestReceived, 0⟩, "server:b"⟩ = true := by
  refine ⟨_, ⟨_, _, rfl, rfl⟩, by decide, _, _, rfl, rfl, ?_⟩
  refine (contains_requests_iff (b := Builder.new askingProject) ⟨_, _, rfl, rfl⟩ (by decide)
    rfl rfl "client:a" "server:b").mpr ?_
  refine ⟨askingComponent, by simp [Builder.new, askingProject], answeringComponent,
    by simp [Builder.new, askingProject], rfl, rfl, "client", "a", "server", "b",
    ⟨by decide, by decide⟩, ⟨by decide, by decide⟩, rfl, rfl, .inr ⟨"r", "s", "get", ?_, ?_, ?_⟩⟩
  · exact ⟨_, List.mem_cons_self, by decide, rfl⟩
  · exact ⟨_, List.mem_cons_self, by decide, rfl⟩
  · exact ⟨_, List.mem_cons_self, .inr ⟨rfl, rfl⟩⟩

end Ecoa
