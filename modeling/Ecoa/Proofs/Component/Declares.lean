import Ecoa.Proofs.Component.Externals
import Ecoa.Proofs.Entity.Holds

/-!
# What the entities of a component come from

`Declares` tells, kind by kind, which endpoints an entity of a component has. A component that is
built has only entities that it declares, both sides of each of its dynamic triggers, and an
external for each operation and language that its external senders have.
-/

namespace Ecoa

theorem splitAtError_eq_none {ε α : Type} {xs : List (Except ε α)} {found : List α} :
    splitAtError xs = (found, none) ↔ xs = found.map .ok := by
  induction xs generalizing found with
  | nil => cases found <;> simp [splitAtError]
  | cons x xs ih =>
    cases x with
    | error e => cases found <;> simp [splitAtError]
    | ok a =>
      cases found with
      | nil => simp [splitAtError]
      | cons b found => simp [splitAtError, ← ih, Prod.ext_iff, and_assoc]

namespace Declared.Component

/-- An operation of a module implementation, with the endpoints of its instances. -/
structure HasOperation (c : Component) (side : Links) (scope : ModuleScope) (name : String)
    (links : Links) : Prop where
  component : scope.component = c.name
  links : links = EndpointIndex.select side (c.instancesOf scope.moduleImplementation) name

/-- One side of a declared dynamic trigger, with the endpoints of that name. -/
structure HasDynamicTrigger (c : Component) (side : Links) (group : String) (e : DynamicTrigger) :
    Prop where
  group : group = c.name
  component : e.component = c.name
  name : ∃ t ∈ c.dynamicTriggerInstances, t.name = e.name
  links : e.links = EndpointIndex.selectInstance side .dynamicTrigger e.name

/-- A declared operation of code outside in one language, with the endpoints of all instances, and
without inputs so far. -/
structure HasExternal (c : Component) (side : Links) (e : External) : Prop where
  component : e.component = c.name
  inputs : e.inputs = []
  links : e.links = EndpointIndex.selectExternal side e.name e.language

/-- A trigger, with the endpoints of its instance. -/
structure HasTrigger (c : Component) (side : Links) (e : Trigger) : Prop where
  component : e.component = c.name
  links : e.links = EndpointIndex.selectInstance side .trigger e.name

/-- The endpoints of an entity are those that the component declares for it, and no key of it is
stamped yet. -/
def Declares (c : Component) : Entry → Prop
  | ⟨.eventSend, _, e⟩ =>
    c.HasOperation (EndpointIndex.build c).eventSenders e.scope e.name e.links
  | ⟨.eventReceived, _, e⟩ =>
    c.HasOperation (EndpointIndex.build c).eventReceivers e.scope e.name e.links
  | ⟨.requestSend, _, e⟩ =>
    c.HasOperation (EndpointIndex.build c).requestClients e.scope e.name e.links
  | ⟨.requestReceived, _, e⟩ =>
    c.HasOperation (EndpointIndex.build c).requestServers e.scope e.name e.links
  | ⟨.dataWritten, _, e⟩ =>
    c.HasOperation (EndpointIndex.build c).dataWriters e.scope e.name e.links ∧ e.controlled = ∅
  | ⟨.dataRead, _, e⟩ =>
    c.HasOperation (EndpointIndex.build c).dataReaders e.scope e.name e.links ∧ e.controlled = ∅
  | ⟨.external, _, e⟩ => c.HasExternal (EndpointIndex.build c).eventSenders e
  | ⟨.trigger, _, e⟩ => c.HasTrigger (EndpointIndex.build c).eventSenders e
  | ⟨.dynamicTriggerSend, group, e⟩ =>
    c.HasDynamicTrigger (EndpointIndex.build c).eventSenders group e
  | ⟨.dynamicTriggerReceived, group, e⟩ =>
    c.HasDynamicTrigger (EndpointIndex.build c).eventReceivers group e
  | _ => True

/-- What has endpoints is of the component that declares it. -/
theorem Declares.component_eq {c : Component} {x : Entry} (h : c.Declares x)
    (hlinked : x.kind.isLinked = true) : x.entity.component x.kind = c.name := by
  obtain ⟨kind, g, e⟩ := x
  cases kind with
  | property | pinfo => cases hlinked
  | dataRead | dataWritten => exact h.1.component
  | eventSend | eventReceived | requestSend | requestReceived => exact h.component
  | external | trigger | dynamicTriggerSend | dynamicTriggerReceived => exact h.component

/-- What the entities of a component are built from, in a model with these types. -/
def context (c : Component) (r : TypeRegistry) (d : Ecoa.Deployment) (layout : Layout)
    (sites : List ModuleSite) : ComponentContext :=
  ⟨r, d, layout, c, .build c, sites⟩

/-- The component can be built, and these are all its entities. -/
def HasEntries (c : Component) (r : TypeRegistry) (d : Ecoa.Deployment) (layout : Layout)
    (found : List Entry) : Prop :=
  ∃ sites, ModuleSite.all c = .ok sites ∧ (c.context r d layout sites).entries = found.map .ok

/-- The component can be built. -/
def IsBuildable (c : Component) (r : TypeRegistry) (d : Ecoa.Deployment) (layout : Layout) : Prop :=
  ∃ found, c.HasEntries r d layout found

/-- The entities of the component, in order, up to one that cannot be built. -/
def built (c : Component) (r : TypeRegistry) (d : Ecoa.Deployment) (layout : Layout) :
    List Entry :=
  match ModuleSite.all c with
  | .ok sites => (splitAtError (c.context r d layout sites).entries).1
  | .error _ => []

theorem HasEntries.eq_built {c : Component} {r : TypeRegistry} {d : Ecoa.Deployment}
    {layout : Layout} {found : List Entry} (h : c.HasEntries r d layout found) :
    found = c.built r d layout := by
  obtain ⟨sites, hsites, hentries⟩ := h
  rw [built, hsites]
  exact (congrArg Prod.fst (splitAtError_eq_none.mpr hentries)).symm

theorem IsBuildable.hasEntries {c : Component} {r : TypeRegistry} {d : Ecoa.Deployment}
    {layout : Layout} (h : c.IsBuildable r d layout) :
    c.HasEntries r d layout (c.built r d layout) := by
  obtain ⟨found, hfound⟩ := h
  exact hfound.eq_built ▸ hfound

end Declared.Component

/-- The site is one of this component. -/
structure ModuleSite.IsOf (site : ModuleSite) (c : Declared.Component) : Prop where
  component : site.scope.component = c.name
  instances : site.instances = c.instancesOf site.scope.moduleImplementation

theorem ModuleSite.isOf_of_ofImplementation {c : Declared.Component}
    {i : Declared.ModuleImplementation} {site : ModuleSite} (h : ofImplementation c i = .ok site) :
    site.IsOf c := by
  unfold ofImplementation at h
  split at h
  · cases h
  · split at h
    · cases h
    · cases h
      exact ⟨rfl, rfl⟩

theorem ModuleSite.isOf_of_all {c : Declared.Component} {sites : List ModuleSite}
    (h : ModuleSite.all c = .ok sites) {site : ModuleSite} (hs : site ∈ sites) : site.IsOf c := by
  obtain ⟨_, -, h⟩ := bind_ok_iff.mp h
  obtain ⟨i, -, hi⟩ := exists_of_mapM_ok h hs
  exact isOf_of_ofImplementation hi

namespace Declared.Component

theorem hasOperation_of_isOf {c : Component} {site : ModuleSite} (h : site.IsOf c) (side : Links)
    (name : String) :
    c.HasOperation side site.scope name (EndpointIndex.select side site.instances name) :=
  ⟨h.component, by rw [h.instances]⟩

section

variable {c : Component} {r : TypeRegistry} {d : Ecoa.Deployment} {layout : Layout}
  {sites : List ModuleSite} {site : ModuleSite} {x : Entry}

theorem declares_eventEntry (hs : site.IsOf c) {isSent : Bool} {e : Event}
    (h : (c.context r d layout sites).eventEntry site isSent e = .ok x) : c.Declares x := by
  obtain ⟨inputs, -, h⟩ := bind_ok_iff.mp h
  cases isSent with
  | true => cases h; exact hasOperation_of_isOf hs _ _
  | false => cases h; exact hasOperation_of_isOf hs _ _

theorem declares_externalEntries (h : .ok x ∈ (c.context r d layout sites).externalEntries) :
    c.Declares x := by
  unfold ComponentContext.externalEntries at h
  split at h
  · simp at h
  · next found hfound =>
    obtain ⟨e, he, heq⟩ := List.mem_map.mp h
    cases heq
    exact ⟨rfl, rfl,
      ComponentContext.links_of_mem_toList (Links.isDistinct_ofJoins _) hfound he⟩

theorem declares_dynamicTriggerEntries {t : DynamicTriggerInstance}
    (ht : t ∈ c.dynamicTriggerInstances)
    (h : .ok x ∈ (c.context r d layout sites).dynamicTriggerEntries t) : c.Declares x := by
  unfold ComponentContext.dynamicTriggerEntries at h
  split at h
  · simp at h
  · rcases List.mem_pair.mp h with h | h
    · cases h; exact ⟨rfl, rfl, ⟨t, ht, rfl⟩, rfl⟩
    · cases h; exact ⟨rfl, rfl, ⟨t, ht, rfl⟩, rfl⟩

theorem declares_eventEntries (hs : ∀ site ∈ sites, site.IsOf c)
    (h : .ok x ∈ (c.context r d layout sites).eventEntries) : c.Declares x := by
  unfold ComponentContext.eventEntries at h
  simp only [List.mem_append, List.mem_flatMap, List.mem_map] at h
  rcases h with ((⟨site, hsite, ⟨e, -, he⟩ | ⟨e, -, he⟩⟩ | h) | ⟨t, -, ⟨⟩⟩) | ⟨t, ht, h⟩
  · exact declares_eventEntry (hs site hsite) he
  · exact declares_eventEntry (hs site hsite) he
  · exact declares_externalEntries h
  · exact ⟨rfl, rfl⟩
  · exact declares_dynamicTriggerEntries ht h

theorem declares_requestEntries (hs : ∀ site ∈ sites, site.IsOf c)
    (h : .ok x ∈ (c.context r d layout sites).requestEntries) : c.Declares x := by
  unfold ComponentContext.requestEntries at h
  simp only [List.mem_append, List.mem_flatMap, List.mem_map] at h
  rcases h with ⟨site, hsite, ⟨e, -, he⟩ | ⟨e, -, he⟩⟩
  · obtain ⟨inputs, -, he⟩ := bind_ok_iff.mp he
    obtain ⟨outputs, -, ⟨⟩⟩ := bind_ok_iff.mp he
    exact hasOperation_of_isOf (hs site hsite) _ _
  · obtain ⟨inputs, -, he⟩ := bind_ok_iff.mp he
    obtain ⟨outputs, -, ⟨⟩⟩ := bind_ok_iff.mp he
    exact hasOperation_of_isOf (hs site hsite) _ _

theorem declares_dataEntries (hs : ∀ site ∈ sites, site.IsOf c)
    (h : .ok x ∈ (c.context r d layout sites).dataEntries) : c.Declares x := by
  unfold ComponentContext.dataEntries at h
  simp only [List.mem_append, List.mem_flatMap, List.mem_map] at h
  rcases h with ⟨site, hsite, ⟨e, -, he⟩ | ⟨e, -, he⟩⟩
  · obtain ⟨⟨type, category⟩, -, ⟨⟩⟩ := bind_ok_iff.mp he
    exact ⟨hasOperation_of_isOf (hs site hsite) _ _, rfl⟩
  · obtain ⟨⟨type, category⟩, -, ⟨⟩⟩ := bind_ok_iff.mp he
    exact ⟨hasOperation_of_isOf (hs site hsite) _ _, rfl⟩

theorem declares_propertyEntries (h : .ok x ∈ (c.context r d layout sites).propertyEntries) :
    c.Declares x := by
  unfold ComponentContext.propertyEntries at h
  simp only [List.mem_flatMap, List.mem_map] at h
  obtain ⟨site, -, p, -, hp⟩ := h
  obtain ⟨⟨type, category⟩, -, hp⟩ := bind_ok_iff.mp hp
  obtain ⟨item, -, hp⟩ := bind_ok_iff.mp hp
  obtain ⟨values, -, ⟨⟩⟩ := bind_ok_iff.mp hp
  trivial

theorem declares_pinfoEntries (h : .ok x ∈ (c.context r d layout sites).pinfoEntries) :
    c.Declares x := by
  unfold ComponentContext.pinfoEntries at h
  simp only [List.mem_append, List.mem_flatMap, List.mem_map] at h
  rcases h with ⟨site, -, ⟨p, -, hp⟩ | ⟨p, -, hp⟩⟩
  · obtain ⟨values, -, ⟨⟩⟩ := bind_ok_iff.mp hp
    trivial
  · obtain ⟨values, -, ⟨⟩⟩ := bind_ok_iff.mp hp
    trivial

variable {found : List Entry}

/-- A component has only entities that it declares. -/
theorem HasEntries.declares (h : c.HasEntries r d layout found) (hx : x ∈ found) :
    c.Declares x := by
  obtain ⟨sites, hsites, heq⟩ := h
  have hs : ∀ site ∈ sites, site.IsOf c := fun _ => ModuleSite.isOf_of_all hsites
  have hmem : .ok x ∈ (c.context r d layout sites).entries := heq ▸ List.mem_map_of_mem hx
  unfold ComponentContext.entries at hmem
  simp only [List.mem_append] at hmem
  rcases hmem with (((h | h) | h) | h) | h
  · exact declares_eventEntries hs h
  · exact declares_requestEntries hs h
  · exact declares_dataEntries hs h
  · exact declares_propertyEntries h
  · exact declares_pinfoEntries h

theorem HasEntries.exists_of_mem_eventEntries (h : c.HasEntries r d layout found) :
    ∃ sites, ∀ y ∈ (c.context r d layout sites).eventEntries, ∃ x ∈ found, .ok x = y := by
  obtain ⟨sites, -, heq⟩ := h
  refine ⟨sites, fun y hy => List.mem_map.mp ?_⟩
  rw [← heq]
  unfold ComponentContext.entries
  simp only [List.mem_append]
  exact .inl (.inl (.inl (.inl hy)))

/-- Each declared dynamic trigger has both its sides. -/
theorem HasEntries.exists_dynamicTrigger (h : c.HasEntries r d layout found)
    {t : DynamicTriggerInstance} (ht : t ∈ c.dynamicTriggerInstances) :
    (∃ e : DynamicTrigger, e.name = t.name ∧ ⟨.dynamicTriggerSend, c.name, e⟩ ∈ found) ∧
      ∃ e : DynamicTrigger, e.name = t.name ∧ ⟨.dynamicTriggerReceived, c.name, e⟩ ∈ found := by
  obtain ⟨sites, hevents⟩ := h.exists_of_mem_eventEntries
  have hsub : ∀ y ∈ (c.context r d layout sites).dynamicTriggerEntries t,
      ∃ x ∈ found, .ok x = y := by
    intro y hy
    apply hevents
    unfold ComponentContext.eventEntries
    simp only [List.mem_append, List.mem_flatMap]
    exact .inr ⟨t, ht, hy⟩
  unfold ComponentContext.dynamicTriggerEntries at hsub
  split at hsub
  · obtain ⟨x, -, ⟨⟩⟩ := hsub _ List.mem_cons_self
  · obtain ⟨x, hx, ⟨⟩⟩ := hsub _ List.mem_cons_self
    obtain ⟨y, hy, ⟨⟩⟩ := hsub _ (List.mem_cons_of_mem _ List.mem_cons_self)
    exact ⟨⟨_, rfl, hx⟩, ⟨_, rfl, hy⟩⟩

/-- Each operation and language of an external sender has its external. -/
theorem HasEntries.exists_external (h : c.HasEntries r d layout found) {a b : EndpointId}
    (hab : (EndpointIndex.build c).eventSenders.Joins a b) {operation : String}
    {language : Language} (ha : a.IsExternal operation language) :
    ∃ e : External, e.name = operation ∧ e.language = language ∧
      ⟨.external, c.name, e⟩ ∈ found := by
  obtain ⟨sites, hevents⟩ := h.exists_of_mem_eventEntries
  have hsub : ∀ y ∈ (c.context r d layout sites).externalEntries, ∃ x ∈ found, .ok x = y := by
    intro y hy
    apply hevents
    unfold ComponentContext.eventEntries
    simp only [List.mem_append]
    exact .inl (.inl (.inr hy))
  unfold ComponentContext.externalEntries at hsub
  split at hsub
  · obtain ⟨x, -, ⟨⟩⟩ := hsub _ List.mem_cons_self
  · next externals hexternals =>
    obtain ⟨links, hlinks⟩ :=
      ComponentContext.exists_mem_toList (Links.isDistinct_ofJoins _) hexternals hab ha
    obtain ⟨x, hx, ⟨⟩⟩ := hsub _ (List.mem_map_of_mem hlinks)
    exact ⟨_, rfl, rfl, hx⟩

end

end Declared.Component

end Ecoa
