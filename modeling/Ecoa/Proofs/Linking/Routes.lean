import Ecoa.Proofs.Linking.Keys

/-!
# Routes between module operations

When two operations of module implementations are bound directly and when over a wire, by the links
of their components, the instances of their implementations and the deployment of these.
-/

namespace Ecoa

/-- The module instance `i` of an implementation runs under the component instance `u`. -/
def Deployment.Runs (d : Deployment) (c : Declared.Component) (implementation i u : String) :
    Prop :=
  i ∈ c.instancesOf implementation ∧ u ∈ d.componentNames c.name i

/-- The port is an operation of an instance of the implementation. -/
def Declared.Component.HasPort (c : Declared.Component) (implementation name : String) (p : Port) :
    Prop :=
  ∃ i ∈ c.instancesOf implementation, p = ⟨.moduleInstance, i, name⟩

/-- The party holds the links of endpoints in `A`, all of one kind, on one side of a component. -/
structure Party.Owns (x : Party) (side : Declared.Component → Links) (c : Declared.Component)
    (kind : EndpointKind) (A : EndpointId → Prop) : Prop where
  component : x.component = c.name
  links : x.links.ArePicked (side c) A
  kind_eq : ∀ a, A a → a.kind = kind

/-- The party holds the links of ports in `P`, all of one kind, on one side of a component. -/
structure Party.IsOf (x : Party) (side : Declared.Component → Links) (c : Declared.Component)
    (kind : EndpointKind) (P : Port → Prop) : Prop where
  component : x.component = c.name
  links : x.links.AreOf (side c) P
  kind_eq : ∀ p, P p → p.kind = kind

theorem Party.IsOf.owns {x : Party} {side : Declared.Component → Links} {c : Declared.Component}
    {kind : EndpointKind} {P : Port → Prop} (h : x.IsOf side c kind P) :
    x.Owns side c kind fun a => P a.port :=
  ⟨h.component, h.links, fun a => h.kind_eq a.port⟩

/-- The party is an operation of a module implementation, on one side of the links. -/
abbrev Party.IsOperation (x : Party) (side : Declared.Component → Links)
    (c : Declared.Component) (implementation name : String) : Prop :=
  x.IsOf side c .moduleInstance (c.HasPort implementation name)

theorem Declared.Component.HasPort.kind_eq {c : Declared.Component} {implementation name : String}
    {p : Port} (h : c.HasPort implementation name p) : p.kind = .moduleInstance := by
  obtain ⟨i, -, rfl⟩ := h
  rfl

theorem Links.areOf_select (side : Links) (c : Declared.Component) (implementation name : String) :
    Links.AreOf (EndpointIndex.select side (c.instancesOf implementation) name) side
      (c.HasPort implementation name) := by
  intro a b
  rw [EndpointIndex.joins_select, Declared.Component.HasPort]
  refine and_congr Iff.rfl ?_
  constructor
  · rintro ⟨hk, ho, hi⟩
    exact ⟨_, hi, EndpointId.port_eq_iff.mpr ⟨hk, rfl, ho⟩⟩
  · rintro ⟨i, hi, hp⟩
    obtain ⟨hk, rfl, ho⟩ := EndpointId.port_eq_iff.mp hp
    exact ⟨hk, ho, hi⟩

variable {f : LinkFamily} {c c' : Declared.Component} {x y : Party}

/-- Two parties declare each other within one implementation exactly for the endpoints that a link
of it joins; the kinds that they declare are then those of these endpoints. -/
theorem Party.Owns.exists_mutual {kind kind' : EndpointKind} {A B : EndpointId → Prop}
    (hx : x.Owns f.senders c kind A) (hy : y.Owns f.receivers c' kind' B)
    (hsame : c.name = c'.name → c = c') {R : EndpointId → EndpointId → Prop} :
    (∃ p ∈ LinkPair.all x.links y.links,
      (p.senderDeclared.kind = kind' ∧ p.receiverDeclared.kind = kind) ∧ p.isMutual = true ∧
        x.component = y.component ∧ R p.senderOwn.id p.receiverOwn.id) ↔
      c = c' ∧ ∃ a b, A a ∧ B b ∧ (f.senders c).Joins a b ∧ R a b := by
  constructor
  · rintro ⟨p, hp, -, hm, hcomponent, hR⟩
    obtain rfl := hsame (hx.component.symm.trans (hcomponent.trans hy.component))
    exact ⟨rfl, (LinkPair.exists_mutual hx.links hy.links).mp ⟨p, hp, hm, hR⟩⟩
  · rintro ⟨rfl, a, b, ha, hb, hjoins, hR⟩
    obtain ⟨p, hp, hm, hka, hkb, hR⟩ := (LinkPair.exists_mutual hx.links hy.links
      (R := fun a b => a.kind = kind ∧ b.kind = kind' ∧ R a b)).mpr
        ⟨a, b, ha, hb, hjoins, hx.kind_eq a ha, hy.kind_eq b hb, hR⟩
    obtain ⟨hdeclared, hopposite⟩ := LinkPair.kinds_of_isMutual hm
    exact ⟨p, hp, ⟨hdeclared.trans hkb, hopposite.trans hka⟩, hm,
      hx.component.trans hy.component.symm, hR⟩

/-- The same of parties that hold the links of ports. -/
theorem Party.IsOf.exists_mutual {kind kind' : EndpointKind} {P P' : Port → Prop}
    (hx : x.IsOf f.senders c kind P) (hy : y.IsOf f.receivers c' kind' P')
    (hsame : c.name = c'.name → c = c') {R : Port → Port → Prop} :
    (∃ p ∈ LinkPair.all x.links y.links,
      (p.senderDeclared.kind = kind' ∧ p.receiverDeclared.kind = kind) ∧ p.isMutual = true ∧
        x.component = y.component ∧ R p.senderOwn.id.port p.receiverOwn.id.port) ↔
      c = c' ∧ ∃ s r, f.Joins c s r ∧ P s ∧ P' r ∧ R s r := by
  rw [hx.owns.exists_mutual hy.owns hsame (R := fun a b => R a.port b.port),
    ← f.exists_joins_ports]
  refine and_congr_right fun _ => exists_congr fun a => exists_congr fun b => ?_
  tauto

namespace Deployment

variable (d : Deployment) (form : KeyForm) {implementation implementation' name name' : String}
  {k : String × String}

/-- A direct binding comes from one link of the component of both operations. -/
theorem exists_directKeys (hx : x.IsOperation f.senders c implementation name)
    (hy : y.IsOperation f.receivers c' implementation' name')
    (hsame : c.name = c'.name → c = c') :
    (∃ p ∈ LinkPair.all x.links y.links, (p.senderDeclared.kind = .moduleInstance ∧
      p.receiverDeclared.kind = .moduleInstance) ∧ p.isMutual = true ∧
        k ∈ d.directKeys form x y p) ↔
      ∃ i u j v, d.Runs c implementation i u ∧ d.Runs c' implementation' j v ∧
        k = (form.text i u name, form.text j v name') ∧
          c = c' ∧ f.Joins c ⟨.moduleInstance, i, name⟩ ⟨.moduleInstance, j, name'⟩ := by
  simp only [mem_directKeys, mem_keysOf]
  refine (hx.exists_mutual hy hsame (R := fun s r =>
    d.HasKey form x.component s k.1 ∧ d.HasKey form y.component r k.2)).trans ?_
  rw [hx.component, hy.component]
  constructor
  · rintro ⟨rfl, _, _, hjoins, ⟨i, hi, rfl⟩, ⟨j, hj, rfl⟩, ⟨u, hu, hs⟩, ⟨v, hv, hr⟩⟩
    exact ⟨i, u, j, v, ⟨hi, hu⟩, ⟨hj, hv⟩, Prod.ext hs hr, rfl, hjoins⟩
  · rintro ⟨i, u, j, v, ⟨hi, hu⟩, ⟨hj, hv⟩, rfl, rfl, hjoins⟩
    exact ⟨rfl, _, _, hjoins, ⟨i, hi, rfl⟩, ⟨j, hj, rfl⟩, ⟨u, hu, rfl⟩, ⟨v, hv, rfl⟩⟩

/-- A wired binding comes from a link on each side, to ports of one operation that a wire joins. -/
theorem exists_wiredKeys (hx : x.IsOperation f.senders c implementation name)
    (hy : y.IsOperation f.receivers c' implementation' name')
    {K : EndpointKind → EndpointKind → Prop} :
    (∃ p ∈ LinkPair.all x.links y.links, K p.senderDeclared.kind p.receiverDeclared.kind ∧
      k ∈ d.wiredKeys form x y p) ↔
      ∃ i u j v, d.Runs c implementation i u ∧ d.Runs c' implementation' j v ∧
        k = (form.text i u name, form.text j v name') ∧
          ∃ s t : Port, K s.kind t.kind ∧ s.operation = t.operation ∧
            f.Joins c ⟨.moduleInstance, i, name⟩ s ∧ f.Joins c' t ⟨.moduleInstance, j, name'⟩ ∧
              ⟨v, t.instanceName⟩ ∈ d.wiredServices ⟨u, s.instanceName⟩ := by
  simp only [mem_wiredKeys]
  refine (LinkPair.exists_apart hx.links hy.links (R := fun own s own' t =>
    K s.kind t.kind ∧ s.operation = t.operation ∧
      ∃ u ∈ d.componentNames x.component own.instanceName,
      ∃ v ∈ d.componentNames y.component own'.instanceName,
        ⟨v, t.instanceName⟩ ∈ d.wiredServices ⟨u, s.instanceName⟩ ∧
        k = (form.text own.instanceName u own.operation,
          form.text own'.instanceName v own'.operation))).trans ?_
  rw [hx.component, hy.component]
  constructor
  · rintro ⟨_, s, _, t, ⟨i, hi, rfl⟩, ⟨j, hj, rfl⟩, hs, ht, hK, ho, u, hu, v, hv, hw, rfl⟩
    exact ⟨i, u, j, v, ⟨hi, hu⟩, ⟨hj, hv⟩, rfl, s, t, hK, ho, hs, ht, hw⟩
  · rintro ⟨i, u, j, v, ⟨hi, hu⟩, ⟨hj, hv⟩, rfl, s, t, hK, ho, hs, ht, hw⟩
    exact ⟨_, s, _, t, ⟨i, hi, rfl⟩, ⟨j, hj, rfl⟩, hs, ht, hK, ho, u, hu, v, hv, hw, rfl⟩

/-- Pairs of declarations that bind directly, and over wires from ports of one kind to ports of
another, give the keys of the operations under all instances of which one reaches the other. -/
theorem mem_flatMap_pairKeys (hx : x.IsOperation f.senders c implementation name)
    (hy : y.IsOperation f.receivers c' implementation' name')
    (hsame : c.name = c'.name → c = c') {near far : EndpointKind}
    {keys : LinkPair → List (String × String)}
    (hkeys : ∀ p, k ∈ keys p ↔
      ((p.senderDeclared.kind = .moduleInstance ∧ p.receiverDeclared.kind = .moduleInstance) ∧
        p.isMutual = true ∧ k ∈ d.directKeys form x y p) ∨
      ((p.senderDeclared.kind = near ∧ p.receiverDeclared.kind = far) ∧
        k ∈ d.wiredKeys form x y p)) :
    k ∈ (LinkPair.all x.links y.links).flatMap keys ↔
      ∃ i u j v, d.Runs c implementation i u ∧ d.Runs c' implementation' j v ∧
        k = (form.text i u name, form.text j v name') ∧
          ((c = c' ∧ f.Joins c ⟨.moduleInstance, i, name⟩ ⟨.moduleInstance, j, name'⟩) ∨
            ∃ s t operation, f.Joins c ⟨.moduleInstance, i, name⟩ ⟨near, s, operation⟩ ∧
              f.Joins c' ⟨far, t, operation⟩ ⟨.moduleInstance, j, name'⟩ ∧
                ⟨v, t⟩ ∈ d.wiredServices ⟨u, s⟩) := by
  simp only [List.mem_flatMap, hkeys, and_or_left, exists_or]
  rw [d.exists_directKeys form hx hy hsame, d.exists_wiredKeys form hx hy
    (K := fun kind kind' => kind = near ∧ kind' = far)]
  constructor
  · rintro (⟨i, u, j, v, hi, hj, hk, h⟩ |
      ⟨i, u, j, v, hi, hj, hk, ⟨_, s, o⟩, ⟨_, t, _⟩, ⟨rfl, rfl⟩, rfl, hs, ht, hw⟩)
    · exact .inl ⟨i, u, j, v, hi, hj, hk, h⟩
    · exact .inr ⟨i, u, j, v, hi, hj, hk, s, t, o, hs, ht, hw⟩
  · rintro (⟨i, u, j, v, hi, hj, hk, h⟩ | ⟨i, u, j, v, hi, hj, hk, s, t, o, hs, ht, hw⟩)
    · exact .inl ⟨i, u, j, v, hi, hj, hk, h⟩
    · exact .inr ⟨i, u, j, v, hi, hj, hk, ⟨near, s, o⟩, ⟨far, t, o⟩, ⟨rfl, rfl⟩, rfl, hs, ht, hw⟩

end Deployment

end Ecoa
