import Ecoa.Proofs.Build.Rearrangement

/-!
# Wires turned around

A wire joins two services whichever of them is declared as its source. When some wires are turned
around, each service finds the same services along its wires, in the same order and however the
edges at a node are listed. Nothing else is read of the wires, so the same model is built.
-/

namespace Ecoa

namespace Declared

def Wire.reverse (w : Wire) : Wire := ⟨w.target, w.source⟩

/-- The assembly with the wires at these positions turned around. -/
def Assembly.withWiresTurned (a : Assembly) (turned : Nat → Bool) : Assembly :=
  { a with wires := a.wires.mapIdx fun i w => if turned i then w.reverse else w }

def Project.withWiresTurned (p : Project) (turned : Nat → Bool) : Project :=
  { p with assembly := p.assembly.withWiresTurned turned }

variable {turned : Nat → Bool}

/-- Wires that are turned around twice are as they were. -/
theorem Assembly.withWiresTurned_twice (a : Assembly) :
    (a.withWiresTurned turned).withWiresTurned turned = a := by
  have htwice : ∀ (i : Nat) (w : Wire), (if turned i then
      (if turned i then w.reverse else w).reverse else if turned i then w.reverse else w) = w := by
    intro i w
    split <;> rfl
  have hwires : ((a.withWiresTurned turned).withWiresTurned turned).wires = a.wires := by
    simp only [withWiresTurned, List.mapIdx_mapIdx, Function.comp_def, htwice]
    exact List.mapIdx_eq_iff.mpr fun i => Option.map_id'.symm
  exact congrArg (Assembly.mk a.components) hwires

theorem Project.withWiresTurned_twice (p : Project) :
    (p.withWiresTurned turned).withWiresTurned turned = p :=
  congrArg (Project.mk p.libraries p.components p.deployment) p.assembly.withWiresTurned_twice

end Declared

/-! ## What deployments tell of their wires -/

/-- The second deployment differs in its wires at most, and along them each service finds the same
services, in the same order. -/
structure Deployment.IsRewiredAs (d d' : Deployment) : Prop where
  components : d'.components = d.components
  placements : d'.placements = d.placements
  wiredServices : ∀ s, d'.wiredServices s = d.wiredServices s

namespace Deployment

variable {d d' : Deployment}

/-- From either end a wire leads to the other. -/
theorem otherEnd?_swap (s : ComponentService) (w : ComponentService × ComponentService) :
    otherEnd? s w.swap = otherEnd? s w := by
  refine Option.ext fun t => ?_
  rw [otherEnd?_eq_some, otherEnd?_eq_some, Prod.fst_swap, Prod.snd_swap]
  exact or_comm.trans (or_congr and_comm and_comm)

variable {components : OrderedMap String Declared.ComponentInstance} {w : Declared.Wire}
  {number : Nat} {y : ComponentService × ComponentService}

/-- A wire is connected in either direction. -/
theorem connect_reverse (h : connect components w number = .ok y) :
    connect components w.reverse number = .ok y.swap := by
  obtain ⟨hsource, htarget, rfl⟩ := connect_ok_iff.mp h
  exact connect_ok_iff.mpr ⟨htarget, hsource, rfl⟩

/-- With some of its wires turned around a deployment is built as well. -/
theorem build_withWiresTurned {deployment : Declared.Deployment} {a : Declared.Assembly}
    (turned : Nat → Bool) (h : Deployment.build deployment a = .ok d) :
    ∃ d', Deployment.build deployment (a.withWiresTurned turned) = .ok d' ∧ d.IsRewiredAs d' := by
  obtain ⟨placements, hplacements, h⟩ := bind_ok_iff.mp h
  obtain ⟨wires, hwires, ⟨⟩⟩ := bind_ok_iff.mp h
  have hzip : (a.withWiresTurned turned).wires.zipIdx = a.wires.zipIdx.map fun w =>
      (if turned w.2 then w.1.reverse else w.1, w.2) := by
    refine List.ext_getElem? fun i => ?_
    simp only [Declared.Assembly.withWiresTurned, List.getElem?_zipIdx, List.getElem?_mapIdx,
      List.getElem?_map, Option.map_map, Function.comp_def, Nat.zero_add]
  obtain ⟨wires', hwires', hrel⟩ : ∃ wires', (a.withWiresTurned turned).wires.zipIdx.mapM
      (fun w => connect (.ofList (a.components.map fun c => (c.name, c))) w.1 w.2) = .ok wires' ∧
      List.Forall₂ (fun y z => ∀ s, otherEnd? s z = otherEnd? s y) wires wires' := by
    rw [hzip, List.mapM_map]
    refine mapM_ok_of_rel (fun w y hy => ?_) hwires
    dsimp only [Function.comp_apply]
    split
    · exact ⟨y.swap, connect_reverse hy, fun s => otherEnd?_swap s y⟩
    · exact ⟨y, hy, fun _ => rfl⟩
  refine ⟨⟨_, placements, wires'⟩, ?_, rfl, rfl, fun s => ?_⟩
  · exact bind_ok_iff.mpr ⟨placements, hplacements, bind_ok_iff.mpr ⟨wires', hwires', rfl⟩⟩
  · rw [wiredServices_eq, wiredServices_eq]
    exact (filterMap_eq_of_forall₂ (hrel.imp fun _ _ hy => (hy s).symm)).symm

/-! What is read of a deployment does not depend on the direction of its wires. -/

variable {form : KeyForm} {sender receiver : Party} {p : LinkPair}

namespace IsRewiredAs

variable (h : d.IsRewiredAs d')

include h

theorem componentNames_eq (implementation i : String) :
    d'.componentNames implementation i = d.componentNames implementation i := by
  unfold componentNames names
  rw [h.placements]

theorem keysOf_eq (component : String) (own : Endpoint) :
    d'.keysOf form component own = d.keysOf form component own := by
  unfold keysOf
  rw [h.componentNames_eq]

theorem directKeys_eq :
    d'.directKeys form sender receiver p = d.directKeys form sender receiver p := by
  unfold directKeys
  simp only [h.keysOf_eq]

theorem wiredKeys_eq :
    d'.wiredKeys form sender receiver p = d.wiredKeys form sender receiver p := by
  unfold wiredKeys
  simp only [h.componentNames_eq, h.wiredServices]

end IsRewiredAs

end Deployment

namespace Declared.Component

variable {d d' : Ecoa.Deployment} {c : Component} {r : TypeRegistry} {layout : Layout}
  {sites : List ModuleSite}

section

variable (h : d.IsRewiredAs d')

include h

theorem deployedValues_eq {site : ModuleSite} (name : String)
    (values : ModuleInstance → List NamedValue) :
    (c.context r d' layout sites).deployedValues site name values =
      (c.context r d layout sites).deployedValues site name values := by
  have hproperty : ∀ component property,
      d'.componentProperty? component property = d.componentProperty? component property := by
    intro component property
    unfold Deployment.componentProperty?
    rw [h.components]
  unfold ComponentContext.deployedValues ComponentContext.instanceValues
    ComponentContext.deployedValue context
  simp only [h.componentNames_eq, hproperty]

theorem propertyEntries_eq : (c.context r d' layout sites).propertyEntries =
    (c.context r d layout sites).propertyEntries := by
  have hentry : ∀ site p, (c.context r d' layout sites).propertyEntry site p =
      (c.context r d layout sites).propertyEntry site p := by
    intro site p
    unfold ComponentContext.propertyEntry
    rw [deployedValues_eq h]
    rfl
  simp only [ComponentContext.propertyEntries, funext (hentry _)]
  rfl

theorem pinfoEntries_eq : (c.context r d' layout sites).pinfoEntries =
    (c.context r d layout sites).pinfoEntries := by
  have hentry : ∀ site isPrivate p, (c.context r d' layout sites).pinfoEntry site isPrivate p =
      (c.context r d layout sites).pinfoEntry site isPrivate p := by
    intro site isPrivate p
    unfold ComponentContext.pinfoEntry
    rw [deployedValues_eq h]
    rfl
  simp only [ComponentContext.pinfoEntries, funext (hentry _ _)]
  rfl

/-- The entities of a component are built from the component instances and the modules that are
deployed, whatever the wires. -/
theorem entries_eq : (c.context r d' layout sites).entries =
    (c.context r d layout sites).entries := by
  have hevents : (c.context r d' layout sites).eventEntries =
      (c.context r d layout sites).eventEntries := eventEntries_congr
  have hrequests : (c.context r d' layout sites).requestEntries =
      (c.context r d layout sites).requestEntries := rfl
  have hdata : (c.context r d' layout sites).dataEntries =
      (c.context r d layout sites).dataEntries := rfl
  rw [ComponentContext.entries, ComponentContext.entries, hevents, hrequests, hdata,
    propertyEntries_eq h, pinfoEntries_eq h]

end

end Declared.Component

/-! ## Models over another deployment -/

namespace Model

def withDeployment (m : Model) (d : Deployment) : Model := { m with deployment := d }

variable {m m' : Model} {d : Deployment} {layout : Layout}

theorem insertAll_withDeployment (m : Model) (d : Deployment) (found : List Entry) :
    (m.withDeployment d).insertAll found = (m.insertAll found).withDeployment d := by
  have hinsert : ∀ (m : Model) (x : Entry),
      (m.withDeployment d).insert x = (m.insert x).withDeployment d := by
    rintro m ⟨kind, g, e⟩
    cases kind <;> rfl
  induction found generalizing m with
  | nil => rfl
  | cons x found ih =>
    rw [insertAll, List.foldl_cons, hinsert]
    exact ih (m.insert x)

theorem sortTypes_withDeployment (h : m.sortTypes = .ok m') :
    (m.withDeployment d).sortTypes = .ok (m'.withDeployment d) := by
  unfold sortTypes at h ⊢
  refine foldlM_ok_map (g := (·.withDeployment d)) (fun a library b hstep => ?_) h
  obtain ⟨sorted, hsorted, ⟨⟩⟩ := bind_ok_iff.mp hstep
  exact bind_ok_iff.mpr ⟨sorted, hsorted, rfl⟩

theorem addComponent_withDeployment (hd : m.deployment.IsRewiredAs d) {c : Declared.Component}
    {counts : EntityCounts} (h : m.addComponent layout c = (m', .ok counts)) :
    ∃ counts', (m.withDeployment d).addComponent layout c = (m'.withDeployment d, .ok counts') := by
  obtain ⟨sites, found, hsites, hentries, rfl⟩ := addComponent_ok_iff.mp ⟨counts, h⟩
  refine addComponent_ok_iff.mpr ⟨sites, found, hsites, ?_, ?_⟩
  · exact (Declared.Component.entries_eq hd).trans hentries
  · exact (insertAll_withDeployment _ d found).symm

/-- Components are added one by one, each with the same entities. -/
theorem addComponents_withDeployment (hd : m.deployment.IsRewiredAs d)
    {cs : List Declared.Component} {n : Nat} (h : m.addComponents layout cs = .ok (m', n)) :
    ∃ n', (m.withDeployment d).addComponents layout cs = .ok (m'.withDeployment d, n') := by
  induction cs generalizing m n with
  | nil =>
    cases h
    exact ⟨0, rfl⟩
  | cons c cs ih =>
    unfold addComponents at h
    split at h
    · next m₁ counts hc =>
      obtain ⟨⟨m₂, k⟩, hcs, ⟨⟩⟩ := bind_ok_iff.mp h
      obtain ⟨counts', hc'⟩ := addComponent_withDeployment hd hc
      obtain ⟨hext, -, -⟩ := addComponent_ok hc
      rw [← hext.deployment] at hd
      obtain ⟨n', hn'⟩ := ih hd hcs
      refine ⟨counts'.entities + n', ?_⟩
      rw [addComponents, hc']
      dsimp only
      rw [hn']
      rfl
    · cases h

/-! ### Linking -/

open EventLinking

section

variable (h : m.deployment.IsRewiredAs d)

include h

theorem matchPair_withDeployment (sender receiver : Party) (p : LinkPair) :
    matchPair (m.withDeployment d) sender receiver p = matchPair m sender receiver p := by
  have hkeys : ∀ route, routeKeys (m.withDeployment d) route sender receiver p =
      routeKeys m route sender receiver p := by
    intro route
    unfold routeKeys withDeployment
    simp only [h.keysOf_eq, h.directKeys_eq, h.wiredKeys_eq]
    rfl
  unfold matchPair
  simp only [hkeys]

theorem allMatches_withDeployment : allMatches (m.withDeployment d) = allMatches m := by
  have hphase : ∀ phase, phaseMatches (m.withDeployment d) phase = phaseMatches m phase := by
    intro phase
    unfold phaseMatches
    simp only [funext (matchPair_withDeployment h _ _)]
    rfl
  unfold allMatches
  rw [funext hphase]

theorem requestBindings_withDeployment :
    RequestLinking.bindings (m.withDeployment d) = RequestLinking.bindings m := by
  have hkeys : ∀ client server p, RequestLinking.pairKeys (m.withDeployment d) client server p =
      RequestLinking.pairKeys m client server p := by
    intro client server p
    unfold RequestLinking.pairKeys withDeployment
    simp only [h.directKeys_eq, h.wiredKeys_eq]
  unfold RequestLinking.bindings
  simp only [hkeys]
  rfl

theorem dataBindings_withDeployment :
    DataLinking.bindings (m.withDeployment d) = DataLinking.bindings m := by
  have hkeys : ∀ writer reader p, DataLinking.pairKeys (m.withDeployment d) writer reader p =
      DataLinking.pairKeys m writer reader p := by
    intro writer reader p
    unfold DataLinking.pairKeys withDeployment
    simp only [h.directKeys_eq, h.wiredKeys_eq]
  unfold DataLinking.bindings
  simp only [hkeys]
  rfl

theorem linkEvents_withDeployment :
    (m.withDeployment d).linkEvents.1 = m.linkEvents.1.withDeployment d := by
  rw [linkEvents_fst, linkEvents_fst, allMatches_withDeployment h]
  rfl

/-- Linking over the other deployment gives the same tables, and all the same entities. -/
theorem link_withDeployment : (m.withDeployment d).link.1 = m.link.1.withDeployment d := by
  have hrelayed : (m.linkEvents.1.withDeployment d).relayed = m.linkEvents.1.relayed :=
    relayed_congr rfl rfl rfl
  have hwriters : (m.withDeployment d).stampedWriters = m.stampedWriters := by
    unfold stampedWriters
    rw [dataBindings_withDeployment h]
    rfl
  have hreaders : (m.withDeployment d).stampedReaders = m.stampedReaders := by
    unfold stampedReaders
    rw [dataBindings_withDeployment h]
    rfl
  rw [link_fst_eq, link_fst_eq, linkEvents_withDeployment h, hrelayed,
    requestBindings_withDeployment h, dataBindings_withDeployment h, hwriters, hreaders]
  dsimp only [withDeployment]

end

end Model

/-- With some of its wires turned around a project has the same model, over its own deployment. -/
theorem Declared.Project.model_withWiresTurned {p : Declared.Project} {config : BuildConfig}
    {m : Model} (turned : Nat → Bool) (h : ∃ summary, p.model config = .ok (m, summary)) :
    ∃ d, m.deployment.IsRewiredAs d ∧
      ∃ summary, (p.withWiresTurned turned).model config = .ok (m.withDeployment d, summary) := by
  obtain ⟨r, d, languages, typed, m₀, n, checked, hr, hd, hlanguages, htyped, hm₀, hchecked,
    hlink⟩ := model_ok_iff.mp h
  obtain ⟨d', hd', hrewired⟩ := Deployment.build_withWiresTurned turned hd
  have htyped' : (Model.empty r d').sortTypes = .ok (typed.withDeployment d') :=
    Model.sortTypes_withDeployment htyped
  obtain ⟨hext, -⟩ := Model.sortTypes_ok htyped
  have hdtyped : typed.deployment.IsRewiredAs d' := hext.deployment ▸ hrewired
  obtain ⟨n', hm₀'⟩ := Model.addComponents_withDeployment hdtyped hm₀
  obtain ⟨hext', -, -⟩ := Model.addComponents_ok hm₀
  have hd₀ : m₀.deployment.IsRewiredAs d' := hext'.deployment ▸ hdtyped
  have hdeployment : m.deployment = m₀.deployment := by rw [hlink, Model.link_fst_eq]
  refine ⟨d', hdeployment ▸ hd₀, model_ok_iff.mpr ⟨r, d', languages, _, _, n', checked, hr, hd',
    hlanguages, htyped', hm₀', hchecked, ?_⟩⟩
  rw [hlink, Model.link_withDeployment hd₀]

namespace Builder

variable {b : Builder} {m m' : Model}

/-- What is built is one model. -/
theorem Builds.unique (h : b.Builds m) (h' : b.Builds m') : m = m' := by
  obtain ⟨_, _, hb, hm⟩ := h
  obtain ⟨_, _, hb', hm'⟩ := h'
  cases hb.symm.trans hb'
  exact Option.some.inj (hm.symm.trans hm')

theorem Builds.withWiresTurned (turned : Nat → Bool) (h : b.Builds m) :
    ∃ d, m.deployment.IsRewiredAs d ∧
      { b with project := b.project.withWiresTurned turned }.Builds (m.withDeployment d) := by
  obtain ⟨hbuilt, hne, hmodel⟩ := builds_iff.mp h
  obtain ⟨d, hd, hmodel'⟩ := Declared.Project.model_withWiresTurned turned hmodel
  exact ⟨d, hd, builds_iff.mpr ⟨hbuilt, hne, hmodel'⟩⟩

/-- Wires carry no direction. With any of them turned around a project is built when it was, and
then all tables are the same. The two models differ in their deployments alone, and these in nothing
that is found along the wires, in whatever way each of the two graphs lists the edges at its
nodes. -/
theorem builds_withWiresTurned (b : Builder) (turned : Nat → Bool) :
    ((∃ m, b.Builds m) ↔ ∃ m, { b with project := b.project.withWiresTurned turned }.Builds m) ∧
    ∀ m m', b.Builds m → { b with project := b.project.withWiresTurned turned }.Builds m' →
      m'.events = m.events ∧ m'.requests = m.requests ∧ m'.data = m.data ∧
      m' = m.withDeployment m'.deployment ∧ m.deployment.IsRewiredAs m'.deployment ∧
      ∀ edgesAt edgesAt' : Nat → List WireEdge,
        (∀ n, m.deployment.wiring.ListsEdgesAt n (edgesAt n)) →
        (∀ n, m'.deployment.wiring.ListsEdgesAt n (edgesAt' n)) →
        ∀ s, m.deployment.wiring.servicesAlong edgesAt s = m.deployment.wiredServices s ∧
          m'.deployment.wiring.servicesAlong edgesAt' s = m.deployment.wiredServices s := by
  refine ⟨⟨?_, ?_⟩, ?_⟩
  · rintro ⟨m, h⟩
    obtain ⟨d, -, h'⟩ := h.withWiresTurned turned
    exact ⟨_, h'⟩
  · rintro ⟨m, h⟩
    -- turned around once more, the wires are as they were
    obtain ⟨d, -, h'⟩ := h.withWiresTurned turned
    rw [Declared.Project.withWiresTurned_twice] at h'
    exact ⟨_, h'⟩
  · intro m m' h h'
    obtain ⟨d, hd, hturned⟩ := h.withWiresTurned turned
    obtain rfl := hturned.unique h'
    refine ⟨rfl, rfl, rfl, rfl, hd, fun edgesAt edgesAt' hlists hlists' s => ⟨?_, ?_⟩⟩
    · exact m.deployment.servicesAlong_wiring hlists s
    · exact (d.servicesAlong_wiring hlists' s).trans (hd.wiredServices s)

open Declared in
/-- The data of the first component is declared to come over the wire from where it is read; turned
around, the wire takes it there as well. -/
theorem builds_withWiresTurned_readingProject :
    ∃ m m', (Builder.new readingProject).Builds m ∧
      (Builder.new (readingProject.withWiresTurned fun _ => true)).Builds m' ∧
      m'.data = m.data ∧
      m'.data.contains ⟨⟨.dataWritten, 0⟩, "gauge:a:height", ⟨.dataRead, 1⟩, "dial:b:shown"⟩ ∧
      ∀ s, m'.deployment.wiring.servicesAlong m'.deployment.wiring.edgesAt s =
        m.deployment.wiredServices s := by
  have hb : (Builder.new readingProject).Builds _ := ⟨_, _, rfl, rfl⟩
  obtain ⟨hiff, htables⟩ := builds_withWiresTurned (Builder.new readingProject) fun _ => true
  obtain ⟨m', hb'⟩ := hiff.mp ⟨_, hb⟩
  obtain ⟨-, -, hdata, -, -, hservices⟩ := htables _ m' hb hb'
  refine ⟨_, m', hb, hb', hdata, hdata ▸ rfl, fun s => ?_⟩
  exact (hservices _ _ (Wiring.listsEdgesAt_edgesAt _) (Wiring.listsEdgesAt_edgesAt _) s).2

end Builder

end Ecoa
