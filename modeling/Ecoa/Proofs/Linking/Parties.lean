import Ecoa.Proofs.Build.Builds
import Ecoa.Proofs.Linking.Routes

/-!
# Parties of a model

The entities of a populated model as parties: which operations of which components they are, and
which of them a binding names.
-/

namespace Ecoa

namespace Model

variable {m : Model} {kind : EntityKind} {i : Nat} {e : Entity kind} {x : Party}

/-- Whatever is stored comes from a component of the project. -/
theorem IsPopulated.exists_declares {p : Declared.Project} (h : m.IsPopulated p)
    (kind : EntityKind) {i : Nat} {e : Entity kind} (he : (m.store kind).get? i = some e) :
    ∃ c ∈ p.components, ∃ g, c.Declares ⟨kind, g, e⟩ := by
  obtain ⟨g, hg⟩ := Store.get?_eq_some_iff.mp he
  obtain ⟨c, hc, hdeclared⟩ := h.declared ⟨kind, g, e⟩ (Array.mem_of_getElem? hg)
  exact ⟨c, hc, g, hdeclared⟩

theorem mem_parties : x ∈ m.parties kind ↔ ∃ i e, (m.store kind).get? i = some e ∧
    x = .of kind i e := by
  unfold parties
  rw [List.mem_map]
  constructor
  · rintro ⟨⟨i, e⟩, he, rfl⟩
    exact ⟨i, e, Store.mem_numbered.mp he, rfl⟩
  · rintro ⟨i, e, he, rfl⟩
    exact ⟨(i, e), Store.mem_numbered.mpr he, rfl⟩

/-- The parties of a kind have different ids. -/
theorem mem_parties_and_id (h : (m.store kind).get? i = some e) :
    x ∈ m.parties kind ∧ x.id = ⟨kind, i⟩ ↔ x = .of kind i e := by
  rw [mem_parties]
  constructor
  · rintro ⟨⟨j, e', he', rfl⟩, hid⟩
    obtain rfl : j = i := congrArg EntityId.index hid
    cases h.symm.trans he'
    rfl
  · rintro rfl
    exact ⟨⟨i, e, h, rfl⟩, rfl⟩

/-- Bindings between all parties of two kinds: those of two entities come from these alone. -/
theorem mem_flatMap_parties (kind kind' : EntityKind) {i j : Nat} {e : Entity kind}
    {e' : Entity kind'} (h : (m.store kind).get? i = some e) (h' : (m.store kind').get? j = some e')
    {keys : Party → Party → List (String × String)} {k k' : String} :
    (⟨⟨kind, i⟩, k, ⟨kind', j⟩, k'⟩ : Binding EntityId) ∈ (m.parties kind).flatMap (fun x =>
      (m.parties kind').flatMap fun y => bindingsUnder x.id y.id (keys x y)) ↔
      (k, k') ∈ keys (.of kind i e) (.of kind' j e') := by
  simp only [List.mem_flatMap, bindingsUnder, List.mem_map, Binding.mk.injEq]
  constructor
  · rintro ⟨x, hx, y, hy, _, hk, hi, rfl, hj, rfl⟩
    cases (mem_parties_and_id h).mp ⟨hx, hi⟩
    cases (mem_parties_and_id h').mp ⟨hy, hj⟩
    exact hk
  · intro hk
    exact ⟨_, ((mem_parties_and_id h).mpr rfl).1, _, ((mem_parties_and_id h').mpr rfl).1, _, hk,
      rfl, rfl, rfl, rfl⟩

end Model

theorem Declared.Component.HasOperation.isOperation {c : Declared.Component}
    {side : Declared.Component → Links} {scope : ModuleScope} {name : String} {links : Links}
    (h : c.HasOperation (side c) scope name links) (id : EntityId) :
    Party.IsOperation ⟨id, scope.component, links⟩ side c scope.moduleImplementation name :=
  ⟨h.component, h.links ▸ Links.areOf_select (side c) c scope.moduleImplementation name,
    fun _ hp => hp.kind_eq⟩

/-- An operation that the model has is one of a component of the project. -/
theorem Model.IsPopulated.exists_operation {m : Model} {p : Declared.Project} (h : m.IsPopulated p)
    (kind : EntityKind) {i : Nat} {e : Entity kind} (he : (m.store kind).get? i = some e)
    (side : Declared.Component → Links) {scope : ModuleScope} {name : String} {links : Links}
    (hdeclares : ∀ (c : Declared.Component) (g : String), c.Declares ⟨kind, g, e⟩ →
      c.HasOperation (side c) scope name links) :
    ∃ c ∈ p.components, c.name = scope.component ∧ Party.IsOperation
      ⟨⟨kind, i⟩, scope.component, links⟩ side c scope.moduleImplementation name := by
  obtain ⟨c, hc, g, hdeclared⟩ := h.exists_declares kind he
  have hop := hdeclares c g hdeclared
  exact ⟨c, hc, hop.component.symm, hop.isOperation ⟨kind, i⟩⟩

/-- Components are told apart by their names. -/
theorem Declared.Project.exists_components_iff {p : Declared.Project}
    (hnames : (p.components.map (·.name)).Nodup) {c d : Declared.Component}
    (hc : c ∈ p.components) (hd : d ∈ p.components)
    {Q : Declared.Component → Declared.Component → Prop} :
    (∃ c' ∈ p.components, ∃ d' ∈ p.components, c'.name = c.name ∧ d'.name = d.name ∧ Q c' d') ↔
      Q c d := by
  have hinj := List.inj_on_of_nodup_map hnames
  constructor
  · rintro ⟨c', hc', d', hd', hcname, hdname, h⟩
    cases hinj hc' hc hcname
    cases hinj hd' hd hdname
    exact h
  · intro h
    exact ⟨c, hc, d, hd, rfl, rfl, h⟩

end Ecoa
