import Ecoa.Build.Builder
import Ecoa.Proofs.Component.Declares
import Ecoa.Proofs.Deployment.Wiring
import Ecoa.Proofs.Type.Resolution

/-!
# Models that are built

A model that is built is linked from one whose entities are those of the components of the project
and in which nothing is bound yet.
-/

namespace Ecoa

/-- A project has the registry after one call for each of its libraries. -/
theorem Declared.Project.eq_ofCalls_of_registry {p : Declared.Project} {r : TypeRegistry}
    (h : p.registry = .ok r) :
    r = .ofCalls (p.libraries.map fun library => ⟨library.name, library.types⟩) := by
  have hall : ∀ libraries start, registerAll start libraries = .ok r →
      r = libraries.foldl (fun r library => (r.register library.name library.types).1) start := by
    intro libraries
    induction libraries with
    | nil =>
      rintro start ⟨⟩
      rfl
    | cons library libraries ih =>
      intro start hregister
      unfold registerAll at hregister
      split at hregister
      · next registered heq =>
        rw [List.foldl_cons, heq]
        exact ih registered hregister
      · cases hregister
  rw [TypeRegistry.ofCalls, List.foldl_map]
  exact hall p.libraries .empty h

/-- The registry of a project keeps its libraries under the kept spellings. -/
theorem Declared.Project.isNormalized_of_registry {p : Declared.Project} {r : TypeRegistry}
    (h : p.registry = .ok r) : r.IsNormalized :=
  eq_ofCalls_of_registry h ▸ TypeRegistry.isNormalized_ofCalls _

namespace Model

variable {m m' : Model} {layout : Layout}

/-- A component can be added when it can be built, and then its entities come last. -/
theorem addComponent_ok_iff {c : Declared.Component} :
    (∃ counts, m.addComponent layout c = (m', .ok counts)) ↔
      ∃ sites found, ModuleSite.all c = .ok sites ∧
        (c.context m.registry m.deployment layout sites).entries = found.map .ok ∧
          m' = (m.addModules c sites).insertAll found := by
  unfold addComponent
  cases ModuleSite.all c with
  | error e => simp
  | ok sites =>
    dsimp only
    change _ ↔ ∃ sites' found, _ = _ ∧
      (c.context m.registry m.deployment layout sites').entries = _ ∧ _
    generalize hsplit : splitAtError (ComponentContext.entries _) = split
    obtain ⟨found, error⟩ := split
    cases error with
    | none =>
      have hentries := splitAtError_eq_none.mp hsplit
      constructor
      · rintro ⟨_, ⟨⟩⟩
        exact ⟨sites, found, rfl, hentries, rfl⟩
      · rintro ⟨_, found', ⟨⟩, hentries', rfl⟩
        cases (hsplit.symm.trans (splitAtError_eq_none.mpr hentries'))
        exact ⟨_, rfl⟩
    | some e =>
      refine iff_of_false nofun ?_
      rintro ⟨_, found', ⟨⟩, hentries', -⟩
      cases (hsplit.symm.trans (splitAtError_eq_none.mpr hentries'))

theorem addComponent_ok {c : Declared.Component} {counts : EntityCounts}
    (h : m.addComponent layout c = (m', .ok counts)) :
    m.Extends m' ∧ c.IsBuildable m.registry m.deployment layout ∧ ∀ kind,
      (m'.store kind).entries.toList = (m.store kind).entries.toList ++
        (c.built m.registry m.deployment layout).filterMap (Entry.of? kind) := by
  obtain ⟨sites, found, hsites, hentries, rfl⟩ := addComponent_ok_iff.mp ⟨counts, h⟩
  have hfound : c.HasEntries m.registry m.deployment layout found := ⟨sites, hsites, hentries⟩
  refine ⟨(extends_addModules m c sites).trans (extends_insertAll _ _), ⟨found, hfound⟩,
    fun kind => ?_⟩
  rw [entries_insertAll, store_addModules, ← hfound.eq_built]

/-- A component is counted with all its entities. -/
theorem addComponent_count {c : Declared.Component} {counts : EntityCounts}
    (h : m.addComponent layout c = (m', .ok counts)) :
    counts.entities = (c.built m.registry m.deployment layout).length := by
  unfold addComponent at h
  split at h
  · cases h
  · next sites hsites =>
    dsimp only at h
    generalize hsplit : splitAtError (ComponentContext.entries _) = split at h
    obtain ⟨found, error⟩ := split
    cases error with
    | some e => cases h
    | none =>
      cases h
      have hentries := splitAtError_eq_none.mp hsplit
      have hfound : c.HasEntries m.registry m.deployment layout found := ⟨sites, hsites, hentries⟩
      have hlength := congrArg List.length hentries
      rw [List.length_map] at hlength
      rw [← hfound.eq_built, ← hlength, ComponentContext.entries]
      simp only [List.length_append]
      rfl

/-- Every component is built, and its entities come after those of the components before. -/
theorem addComponents_ok {cs : List Declared.Component} {n : Nat}
    (h : m.addComponents layout cs = .ok (m', n)) :
    m.Extends m' ∧ (∀ c ∈ cs, c.IsBuildable m.registry m.deployment layout) ∧ ∀ kind,
      (m'.store kind).entries.toList = (m.store kind).entries.toList ++
        (cs.flatMap (·.built m.registry m.deployment layout)).filterMap (Entry.of? kind) := by
  induction cs generalizing m n with
  | nil =>
    cases h
    exact ⟨.refl _, nofun, fun kind => (List.append_nil _).symm⟩
  | cons c cs ih =>
    unfold addComponents at h
    split at h
    · next m₁ counts hc =>
      obtain ⟨⟨m₂, k⟩, hcs, ⟨⟩⟩ := bind_ok_iff.mp h
      obtain ⟨hext, hbuildable, hentries⟩ := addComponent_ok hc
      obtain ⟨hext', hrest, hentries'⟩ := ih hcs
      rw [hext.registry, hext.deployment] at hrest hentries'
      refine ⟨hext.trans hext', List.forall_mem_cons.mpr ⟨hbuildable, hrest⟩, fun kind => ?_⟩
      rw [hentries', hentries, List.flatMap_cons, List.filterMap_append, List.append_assoc]
    · cases h

theorem addComponents_count {cs : List Declared.Component} {n : Nat}
    (h : m.addComponents layout cs = .ok (m', n)) :
    n = (cs.flatMap (·.built m.registry m.deployment layout)).length := by
  induction cs generalizing m n with
  | nil =>
    cases h
    rfl
  | cons c cs ih =>
    unfold addComponents at h
    split at h
    · next m₁ counts hc =>
      obtain ⟨⟨m₂, k⟩, hcs, ⟨⟩⟩ := bind_ok_iff.mp h
      obtain ⟨hext, -, -⟩ := addComponent_ok hc
      rw [List.flatMap_cons, List.length_append, addComponent_count hc, ih hcs, hext.registry,
        hext.deployment]
    · cases h

theorem sortTypes_ok (h : m.sortTypes = .ok m') :
    m.Extends m' ∧ ∀ kind, m'.store kind = m.store kind := by
  unfold sortTypes at h
  refine foldlM_ok_invariant (fun _ a => m.Extends a ∧ ∀ kind, a.store kind = m.store kind) ?_
    ⟨.refl m, fun _ => rfl⟩ h
  rintro _ library a b ⟨hext, hstore⟩ - hstep
  obtain ⟨sorted, -, ⟨⟩⟩ := bind_ok_iff.mp hstep
  refine ⟨hext.trans ⟨rfl, rfl, rfl, rfl, rfl⟩, fun kind => Eq.trans ?_ (hstore kind)⟩
  cases kind <;> rfl

/-- The only library is sorted on its own. -/
theorem sortTypes_of_libraryNames {library : String} {sorted : List TypeDecl}
    (hnames : m.registry.libraryNames = [library])
    (hsorted : m.registry.sorted library = .ok sorted) :
    m.sortTypes = .ok { m with sortedTypes := m.sortedTypes.insert library sorted } := by
  unfold sortTypes
  rw [hnames, List.foldlM_cons]
  exact bind_ok_iff.mpr ⟨_, bind_ok_iff.mpr ⟨sorted, hsorted, rfl⟩, rfl⟩

/-- The model has the entities of the components, one component after the other, and nothing is
bound. -/
structure IsFilled (m : Model) (p : Declared.Project) (layout : Layout) : Prop where
  registry : p.registry = .ok m.registry
  deployment : Deployment.build p.deployment p.assembly = .ok m.deployment
  buildable : ∀ c ∈ p.components, c.IsBuildable m.registry m.deployment layout
  entries : ∀ kind, (m.store kind).entries.toList =
    (p.components.flatMap (·.built m.registry m.deployment layout)).filterMap (Entry.of? kind)
  events : m.events = .empty
  requests : m.requests = .empty
  data : m.data = .empty

theorem IsFilled.holds_iff {p : Declared.Project} (h : m.IsFilled p layout) {x : Entry} :
    m.Holds x ↔ ∃ c ∈ p.components, x ∈ c.built m.registry m.deployment layout := by
  rw [Holds, ← Array.mem_toList_iff, h.entries, List.mem_filterMap]
  simp only [Entry.of?_eq_some_iff, exists_eq_right, List.mem_flatMap]

/-- The model has the entities of the project, and nothing is bound. -/
structure IsPopulated (m : Model) (p : Declared.Project) : Prop where
  origin : ∀ x, m.Holds x → ∃ c ∈ p.components, ∃ found layout,
    c.HasEntries m.registry m.deployment layout found ∧ x ∈ found
  entries : ∀ c ∈ p.components, ∃ found layout,
    c.HasEntries m.registry m.deployment layout found ∧ ∀ x ∈ found, m.Holds x
  wires : ∀ s t, t ∈ m.deployment.wiredServices s ↔ p.assembly.Joins s t
  events : m.events = .empty
  requests : m.requests = .empty
  data : m.data = .empty

theorem IsPopulated.declared {p : Declared.Project} (h : m.IsPopulated p) (x : Entry)
    (hx : m.Holds x) : ∃ c ∈ p.components, c.Declares x := by
  obtain ⟨c, hc, found, _, hfound, hmem⟩ := h.origin x hx
  exact ⟨c, hc, hfound.declares hmem⟩

theorem IsFilled.isPopulated {p : Declared.Project} (h : m.IsFilled p layout) :
    m.IsPopulated p where
  origin x hx := by
    obtain ⟨c, hc, hmem⟩ := h.holds_iff.mp hx
    exact ⟨c, hc, _, layout, (h.buildable c hc).hasEntries, hmem⟩
  entries c hc :=
    ⟨_, layout, (h.buildable c hc).hasEntries, fun _ hx => h.holds_iff.mpr ⟨c, hc, hx⟩⟩
  wires _ _ := Deployment.mem_wiredServices_of_build h.deployment
  events := h.events
  requests := h.requests
  data := h.data

/-- The components of a project fill a model of its types and its deployment. -/
theorem isFilled_of_addComponents {p : Declared.Project} {r : TypeRegistry} {d : Deployment}
    {typed : Model} {n : Nat} (hregistry : p.registry = .ok r)
    (hdeployment : Deployment.build p.deployment p.assembly = .ok d)
    (htyped : (Model.empty r d).sortTypes = .ok typed)
    (hadded : typed.addComponents layout p.components = .ok (m, n)) :
    m.IsFilled p layout ∧ r = m.registry ∧ d = m.deployment := by
  obtain ⟨hext, hstore⟩ := sortTypes_ok htyped
  obtain ⟨hext', hbuildable, hentries⟩ := addComponents_ok hadded
  have hfrom := hext.trans hext'
  obtain rfl : r = m.registry := hfrom.registry.symm
  obtain rfl : d = m.deployment := hfrom.deployment.symm
  rw [← hext'.registry, ← hext'.deployment] at hbuildable hentries
  refine ⟨?_, rfl, rfl⟩
  constructor
  case registry => exact hregistry
  case deployment => exact hdeployment
  case buildable => exact hbuildable
  case entries =>
    intro kind
    rw [hentries, hstore, entries_empty, List.nil_append]
  case events => exact hfrom.events
  case requests => exact hfrom.requests
  case data => exact hfrom.data

end Model

/-- The steps in which a model is made, and what is counted. -/
theorem Declared.Project.exists_steps_of_model_ok {p : Declared.Project} {config : BuildConfig}
    {m : Model} {summary : BuildSummary} (h : p.model config = .ok (m, summary)) :
    ∃ r d languages typed m₀ n checked, p.registry = .ok r ∧
      Ecoa.Deployment.build p.deployment p.assembly = .ok d ∧
      Component.checkLanguages p.components = .ok languages ∧
      (Model.empty r d).sortTypes = .ok typed ∧
      typed.addComponents config.layout p.components = .ok (m₀, n) ∧
      m₀.checkProperties = .ok checked ∧ m = m₀.link.1 ∧ summary.entities = n := by
  obtain ⟨r, hr, h⟩ := bind_ok_iff.mp h
  obtain ⟨d, hd, h⟩ := bind_ok_iff.mp h
  obtain ⟨languages, hlanguages, h⟩ := bind_ok_iff.mp h
  obtain ⟨typed, htyped, h⟩ := bind_ok_iff.mp h
  obtain ⟨⟨m₀, n⟩, hm₀, h⟩ := bind_ok_iff.mp h
  obtain ⟨checked, hchecked, h⟩ := bind_ok_iff.mp h
  have hlink : m = m₀.link.1 ∧ summary.entities = n := by
    generalize m₀.link = linked at h ⊢
    cases h
    exact ⟨rfl, rfl⟩
  exact ⟨r, d, languages, typed, m₀, n, checked, hr, hd, hlanguages, htyped, hm₀, hchecked, hlink⟩

/-- Steps that succeed make a model. -/
theorem Declared.Project.model_of_steps {p : Declared.Project} {config : BuildConfig}
    {r : TypeRegistry} {d : Ecoa.Deployment} {languages n checked : Nat} {typed m₀ : Model}
    (hr : p.registry = .ok r) (hd : Ecoa.Deployment.build p.deployment p.assembly = .ok d)
    (hlanguages : Component.checkLanguages p.components = .ok languages)
    (htyped : (Model.empty r d).sortTypes = .ok typed)
    (hm₀ : typed.addComponents config.layout p.components = .ok (m₀, n))
    (hchecked : m₀.checkProperties = .ok checked) :
    p.model config = .ok (m₀.link.1,
      ⟨p.components.length, n, checked, m₀.link.1.bindingCount, m₀.link.2⟩) := by
  refine bind_ok_iff.mpr ⟨r, hr, bind_ok_iff.mpr ⟨d, hd, bind_ok_iff.mpr ⟨languages, hlanguages,
    bind_ok_iff.mpr ⟨typed, htyped, bind_ok_iff.mpr ⟨(m₀, n), hm₀,
      bind_ok_iff.mpr ⟨checked, hchecked, ?_⟩⟩⟩⟩⟩⟩
  dsimp only
  generalize m₀.link = linked
  rfl

theorem Declared.Project.model_ok_iff {p : Declared.Project} {config : BuildConfig} {m : Model} :
    (∃ summary, p.model config = .ok (m, summary)) ↔
      ∃ r d languages typed m₀ n checked, p.registry = .ok r ∧
        Ecoa.Deployment.build p.deployment p.assembly = .ok d ∧
        Component.checkLanguages p.components = .ok languages ∧
        (Model.empty r d).sortTypes = .ok typed ∧
        typed.addComponents config.layout p.components = .ok (m₀, n) ∧
        m₀.checkProperties = .ok checked ∧ m = m₀.link.1 := by
  constructor
  · rintro ⟨summary, h⟩
    obtain ⟨r, d, languages, typed, m₀, n, checked, hr, hd, hlanguages, htyped, hm₀, hchecked,
      hlink, -⟩ := exists_steps_of_model_ok h
    exact ⟨r, d, languages, typed, m₀, n, checked, hr, hd, hlanguages, htyped, hm₀, hchecked,
      hlink⟩
  · rintro ⟨r, d, languages, typed, m₀, n, checked, hr, hd, hlanguages, htyped, hm₀, hchecked,
      hlink⟩
    rw [hlink]
    exact ⟨_, model_of_steps hr hd hlanguages htyped hm₀ hchecked⟩

namespace Builder

/-- Building succeeds, with this model. -/
def Builds (b : Builder) (m : Model) : Prop :=
  ∃ b' summary, b.build = (b', .ok summary) ∧ b'.model = some m

theorem model_of_build {b b' : Builder} {m : Model} {summary : BuildSummary}
    (hb : b.build = (b', .ok summary)) (hm : b'.model = some m) :
    b.isBuilt = false ∧ b.project.components ≠ [] ∧
      b.project.model b.config = .ok (m, summary) := by
  unfold build at hb
  split at hb
  · cases hb
  · next hbuilt =>
    split at hb
    · cases hb
    · next hempty =>
      split at hb
      · next hmodel =>
        cases hb
        cases hm
        exact ⟨Bool.eq_false_iff.mpr hbuilt, fun h => hempty (List.isEmpty_iff.mpr h), hmodel⟩
      · cases hb

theorem build_of_model {b : Builder} {m : Model} {summary : BuildSummary}
    (hbuilt : b.isBuilt = false) (hne : b.project.components ≠ [])
    (hmodel : b.project.model b.config = .ok (m, summary)) :
    b.build = ({ b with model := some m }, .ok summary) := by
  unfold build
  rw [hbuilt, hmodel, List.isEmpty_eq_false_iff.mpr hne]
  rfl

/-- A builder that has not built yet gives the model of its project, if this has components. -/
theorem builds_iff {b : Builder} {m : Model} : b.Builds m ↔ b.isBuilt = false ∧
    b.project.components ≠ [] ∧ ∃ summary, b.project.model b.config = .ok (m, summary) := by
  constructor
  · rintro ⟨b', summary, hb, hm⟩
    obtain ⟨hbuilt, hne, hmodel⟩ := model_of_build hb hm
    exact ⟨hbuilt, hne, summary, hmodel⟩
  · rintro ⟨hbuilt, hne, summary, hmodel⟩
    exact ⟨_, summary, build_of_model hbuilt hne hmodel, rfl⟩

/-- A model that is built is linked from the entities of the project, in order. -/
theorem Builds.exists_filled {b : Builder} {m : Model} (h : b.Builds m) :
    ∃ m₀ : Model, m₀.IsFilled b.project b.config.layout ∧ m = m₀.link.1 := by
  obtain ⟨-, -, hmodel⟩ := builds_iff.mp h
  obtain ⟨r, d, _, typed, m₀, n, _, hr, hd, -, htyped, hm₀, -, hlink⟩ :=
    Declared.Project.model_ok_iff.mp hmodel
  exact ⟨m₀, (Model.isFilled_of_addComponents hr hd htyped hm₀).1, hlink⟩

/-- A model that is built is linked from the entities of the project. -/
theorem Builds.exists_populated {b : Builder} {m : Model} (h : b.Builds m) :
    ∃ m₀ : Model, m₀.IsPopulated b.project ∧ m = m₀.link.1 := by
  obtain ⟨m₀, hm₀, hlink⟩ := h.exists_filled
  exact ⟨m₀, hm₀.isPopulated, hlink⟩

end Builder

end Ecoa
