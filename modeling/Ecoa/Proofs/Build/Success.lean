import Ecoa.Proofs.Build.Builds
import Ecoa.Proofs.Component.Deployed

/-!
# When building succeeds

A project is built when its types and its deployment are, when the languages are known, and when
each component can be built with properties that are accepted.
-/

namespace Ecoa

namespace Declared.Component

/-- The component can be built, and the check accepts each of its properties. -/
def Passes (c : Component) (r : TypeRegistry) (d : Ecoa.Deployment) (layout : Layout) : Prop :=
  c.IsBuildable r d layout ∧ ∀ g p, (⟨.property, g, p⟩ : Entry) ∈ c.built r d layout →
    Property.check p r = .ok ()

/-- Deployments that agree let the same components pass. -/
theorem Passes.redeploy {c : Component} {r : TypeRegistry} {d d' : Ecoa.Deployment}
    {layout : Layout} (hc : c.Passes r d layout) (h : d.Agrees d') : c.Passes r d' layout := by
  obtain ⟨hbuildable, hproperties⟩ := hc
  obtain ⟨hbuildable', hrel⟩ := hbuildable.redeploy h
  refine ⟨hbuildable', fun g p hp => ?_⟩
  obtain ⟨⟨kind, g', q⟩, hq, hredeployed⟩ := exists_rel_of_mem hrel hp
  cases kind with
  | property =>
    obtain ⟨values, hvalues, ⟨⟩⟩ := hredeployed
    exact Property.check_withValues_ok hvalues (hproperties g q hq)
  | pinfo =>
    obtain ⟨_, ⟨⟩⟩ := hredeployed
  | _ => cases hredeployed

theorem checkLanguages_isOk_iff {cs : List Component} : (∃ n, checkLanguages cs = .ok n) ↔
    ∀ c ∈ cs, ∀ i ∈ c.moduleImplementations, (Language.parse? i.language).isSome = true := by
  have hcheck : ∀ (q : Bool) (e : ModelError),
      (if q then (.ok () : Except ModelError Unit) else .error e) = .ok () ↔ q = true := by
    intro q e
    cases q <;> simp
  simp only [checkLanguages, after_ok_iff, forM_ok_iff, exists_and_left, List.mem_flatMap,
    List.mem_map, hcheck]
  constructor
  · rintro ⟨h, -⟩ c hc i hi
    exact h (c.name, i) ⟨c, hc, i, hi, rfl⟩
  · intro h
    refine ⟨?_, _, rfl⟩
    rintro _ ⟨c, hc, i, hi, rfl⟩
    exact h c hc i hi

end Declared.Component

namespace Model

variable {m m' : Model} {layout : Layout}

theorem addComponents_isOk_iff {cs : List Declared.Component} :
    (∃ m' n, m.addComponents layout cs = .ok (m', n)) ↔
      ∀ c ∈ cs, c.IsBuildable m.registry m.deployment layout := by
  constructor
  · rintro ⟨m', n, h⟩
    exact (addComponents_ok h).2.1
  · intro h
    induction cs generalizing m with
    | nil => exact ⟨m, 0, rfl⟩
    | cons c cs ih =>
      obtain ⟨⟨found, sites, hsites, hentries⟩, hrest⟩ := List.forall_mem_cons.mp h
      obtain ⟨counts, hadded⟩ := addComponent_ok_iff.mpr ⟨sites, found, hsites, hentries, rfl⟩
      obtain ⟨hext, -, -⟩ := addComponent_ok hadded
      rw [← hext.registry, ← hext.deployment] at hrest
      obtain ⟨m', n, hcs⟩ := ih hrest
      refine ⟨m', counts.entities + n, ?_⟩
      rw [addComponents, hadded]
      dsimp only
      rw [hcs]
      rfl

theorem sortTypes_isOk_iff : (∃ m', m.sortTypes = .ok m') ↔
    ∀ library ∈ m.registry.libraryNames, ∃ sorted, m.registry.sorted library = .ok sorted := by
  have loop : ∀ (libraries : List String) (m : Model), (∃ m', libraries.foldlM (fun m library => do
      let sorted ← m.registry.sorted library
      return { m with sortedTypes := m.sortedTypes.insert library sorted }) m = .ok m') ↔
        ∀ library ∈ libraries, ∃ sorted, m.registry.sorted library = .ok sorted := by
    intro libraries
    induction libraries with
    | nil => exact fun m => iff_of_true ⟨m, rfl⟩ nofun
    | cons library libraries ih =>
      intro m
      simp only [List.foldlM_cons, bind_ok_iff, List.forall_mem_cons]
      constructor
      · rintro ⟨m', m₁, ⟨sorted, hsorted, ⟨⟩⟩, hrest⟩
        exact ⟨⟨sorted, hsorted⟩,
          (ih { m with sortedTypes := m.sortedTypes.insert library sorted }).mp ⟨m', hrest⟩⟩
      · rintro ⟨⟨sorted, hsorted⟩, hrest⟩
        obtain ⟨m', hm'⟩ :=
          (ih { m with sortedTypes := m.sortedTypes.insert library sorted }).mpr hrest
        exact ⟨m', _, ⟨sorted, hsorted, rfl⟩, hm'⟩
  exact loop m.registry.libraryNames m

theorem IsFilled.checkProperties_isOk_iff {p : Declared.Project} (h : m.IsFilled p layout) :
    (∃ n, m.checkProperties = .ok n) ↔ ∀ c ∈ p.components, ∀ g q,
      (⟨.property, g, q⟩ : Entry) ∈ c.built m.registry m.deployment layout →
        Property.check q m.registry = .ok () := by
  simp only [checkProperties_ok_iff, ← Property.check_ok_iff]
  have hmem : ∀ q : Property, q ∈ m.properties.items ↔ ∃ c ∈ p.components, ∃ g,
      (⟨.property, g, q⟩ : Entry) ∈ c.built m.registry m.deployment layout := by
    intro q
    have hholds : q ∈ m.properties.items ↔ ∃ g, m.Holds ⟨.property, g, q⟩ := by
      simp only [Store.items, List.mem_map, Holds, ← Array.mem_toList_iff]
      constructor
      · rintro ⟨⟨g, q⟩, hq, rfl⟩
        exact ⟨g, hq⟩
      · rintro ⟨g, hq⟩
        exact ⟨(g, q), hq, rfl⟩
    rw [hholds]
    simp only [h.holds_iff]
    constructor
    · rintro ⟨g, c, hc, hq⟩
      exact ⟨c, hc, g, hq⟩
    · rintro ⟨c, hc, g, hq⟩
      exact ⟨g, c, hc, hq⟩
  constructor
  · intro hall c hc g q hq
    exact hall q ((hmem q).mpr ⟨c, hc, g, hq⟩)
  · intro hall q hq
    obtain ⟨c, hc, g, hq⟩ := (hmem q).mp hq
    exact hall c hc g q hq

end Model

/-- What it takes for a project to have a model. Only the deployment concerns more than one
component, so each component passes on its own. -/
theorem Declared.Project.exists_model_iff {p : Declared.Project} {config : BuildConfig} :
    (∃ m summary, p.model config = .ok (m, summary)) ↔
      ∃ r d, p.registry = .ok r ∧ Ecoa.Deployment.build p.deployment p.assembly = .ok d ∧
        (∀ c ∈ p.components, ∀ i ∈ c.moduleImplementations,
          (Language.parse? i.language).isSome = true) ∧
        (∀ library ∈ r.libraryNames, ∃ sorted, r.sorted library = .ok sorted) ∧
        ∀ c ∈ p.components, c.Passes r d config.layout := by
  simp only [Component.Passes, forall_and, model_ok_iff]
  constructor
  · rintro ⟨m, r, d, n, typed, m₀, k, checked, hr, hd, hlanguages, htyped, hm₀, hchecked, -⟩
    obtain ⟨hfilled, rfl, rfl⟩ := Model.isFilled_of_addComponents hr hd htyped hm₀
    exact ⟨_, _, hr, hd, Component.checkLanguages_isOk_iff.mp ⟨n, hlanguages⟩,
      (Model.sortTypes_isOk_iff (m := .empty _ _)).mp ⟨typed, htyped⟩, hfilled.buildable,
      hfilled.checkProperties_isOk_iff.mp ⟨checked, hchecked⟩⟩
  · rintro ⟨r, d, hr, hd, hlanguages, htypes, hbuildable, hproperties⟩
    obtain ⟨n, hlanguages⟩ := Component.checkLanguages_isOk_iff.mpr hlanguages
    obtain ⟨typed, htyped⟩ := (Model.sortTypes_isOk_iff (m := .empty r d)).mpr htypes
    obtain ⟨hext, -⟩ := Model.sortTypes_ok htyped
    obtain ⟨m₀, k, hm₀⟩ : ∃ m₀ k, typed.addComponents config.layout p.components = .ok (m₀, k) :=
      Model.addComponents_isOk_iff.mpr (by rwa [hext.registry, hext.deployment])
    obtain ⟨hfilled, rfl, rfl⟩ := Model.isFilled_of_addComponents hr hd htyped hm₀
    obtain ⟨checked, hchecked⟩ := hfilled.checkProperties_isOk_iff.mpr hproperties
    exact ⟨_, _, _, n, typed, m₀, k, checked, hr, hd, hlanguages, htyped, hm₀, hchecked, rfl⟩

end Ecoa
