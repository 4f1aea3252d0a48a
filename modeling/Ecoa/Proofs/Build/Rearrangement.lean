import Ecoa.Proofs.Build.Success
import Ecoa.Proofs.Linking.Tables

/-!
# Projects in another order

The order in which a project has its component implementations and its protection domains decides
the numbers of entities, and which of them linking comes to first. Neither whether a model is built
nor what is bound in it depends on that: called by their names, the same entities are bound.
-/

namespace Ecoa

/-- The project has the same component implementations and the same protection domains, in whatever
order, and is the same otherwise. -/
structure Declared.Project.Rearranges (p p' : Declared.Project) : Prop where
  libraries : p.libraries = p'.libraries
  components : p.components.Perm p'.components
  protectionDomains : p.deployment.protectionDomains.Perm p'.deployment.protectionDomains
  assembly : p.assembly = p'.assembly

/-! ## What entities are called -/

/-- The module implementation of an entity, unless it is of a component as a whole. -/
def Entity.moduleImplementation? : (kind : EntityKind) → Entity kind → Option String
  | .eventSend, (e : Event) | .eventReceived, (e : Event) => some e.scope.moduleImplementation
  | .requestSend, (e : RequestSend) => some e.scope.moduleImplementation
  | .requestReceived, (e : RequestReceived) => some e.scope.moduleImplementation
  | .dataRead, (e : DataRead) => some e.scope.moduleImplementation
  | .dataWritten, (e : DataWritten) => some e.scope.moduleImplementation
  | .property, (e : Property) => some e.scope.moduleImplementation
  | .pinfo, (e : Pinfo) => some e.scope.moduleImplementation
  | .external, _ | .trigger, _ | .dynamicTriggerSend, _ | .dynamicTriggerReceived, _ => none

/-- The language of code outside. -/
def Entity.outsideLanguage? : (kind : EntityKind) → Entity kind → Option Language
  | .external, (e : External) => some e.language
  | _, _ => none

/-- What an entity is called, whatever its number. -/
structure Designation where
  kind : EntityKind
  component : String
  moduleImplementation : Option String
  name : String
  language : Option Language
  deriving DecidableEq

def Designation.of (kind : EntityKind) (e : Entity kind) : Designation :=
  ⟨kind, e.component kind, e.moduleImplementation? kind, e.name kind, e.outsideLanguage? kind⟩

namespace Model

def designation? (m : Model) (id : EntityId) : Option Designation :=
  (m.entity? id).map (Designation.of id.kind)

/-- The binding with its ends called by their names. -/
def designate (m : Model) (b : Binding EntityId) : Binding (Option Designation) :=
  ⟨m.designation? b.sender, b.senderKey, m.designation? b.receiver, b.receiverKey⟩

/-- Linking leaves what entities are called. -/
theorem designation?_link (m : Model) (id : EntityId) :
    m.link.1.designation? id = m.designation? id := by
  obtain ⟨kind, i⟩ := id
  have hof : ∀ e : Entity kind, Designation.of kind (m.linkedEntity kind i e) =
      Designation.of kind e := by
    intro e
    cases kind <;> rfl
  change ((m.link.1.store kind).get? i).map (Designation.of kind) = _
  rw [get?_store_link, Option.map_map]
  exact congrArg (Option.map · _) (funext hof)

end Model

/-! ## Whether a model is built -/

/-- Where nothing is called the same, at most one element is selected, whatever the order. -/
theorem filter_eq_of_perm {α β : Type} [DecidableEq β] {f : α → β} {xs ys : List α}
    (h : xs.Perm ys) (hnodup : (xs.map f).Nodup) (b : β) :
    xs.filter (f · = b) = ys.filter (f · = b) := by
  induction h with
  | nil => rfl
  | cons x _ ih => rw [List.filter_cons, List.filter_cons, ih (List.nodup_cons.mp hnodup).2]
  | swap x y xs =>
    have hne : ¬ (f x = b ∧ f y = b) := by
      rintro ⟨rfl, hy⟩
      exact (List.nodup_cons.mp hnodup).1 (hy ▸ List.mem_cons_self)
    by_cases hx : f x = b
    · have hy : f y ≠ b := fun hy => hne ⟨hx, hy⟩
      simp [hx, hy]
    · simp [List.filter_cons, hx]
  | trans h _ ih ih' => exact (ih hnodup).trans (ih' ((h.map f).nodup_iff.mp hnodup))

namespace Declared.Project.Rearranges

variable {p p' : Declared.Project} (h : p.Rearranges p')

include h

theorem symm : p'.Rearranges p :=
  ⟨h.libraries.symm, h.components.symm, h.protectionDomains.symm, h.assembly.symm⟩

theorem registry_eq : p.registry = p'.registry := congrArg (registerAll .empty) h.libraries

theorem deployment_ok {d : Ecoa.Deployment}
    (hd : Ecoa.Deployment.build p.deployment p.assembly = .ok d) :
    ∃ d', Ecoa.Deployment.build p'.deployment p'.assembly = .ok d' ∧ d.Agrees d' :=
  h.assembly ▸ Ecoa.Deployment.build_of_perm h.protectionDomains hd

/-- A project that has a model has one in any order. -/
theorem exists_model {config : BuildConfig} (hp : ∃ m summary, p.model config = .ok (m, summary)) :
    ∃ m summary, p'.model config = .ok (m, summary) := by
  rw [exists_model_iff] at hp ⊢
  obtain ⟨r, d, hr, hd, hlanguages, htypes, hpasses⟩ := hp
  obtain ⟨d', hd', hagrees⟩ := h.deployment_ok hd
  refine ⟨r, d', h.registry_eq ▸ hr, hd', fun c hc => hlanguages c (h.components.mem_iff.mpr hc),
    htypes, fun c hc => (hpasses c (h.components.mem_iff.mpr hc)).redeploy hagrees⟩

theorem exists_builds {b : Builder} (hb : ∃ m, { b with project := p }.Builds m) :
    ∃ m, { b with project := p' }.Builds m := by
  simp only [Builder.builds_iff, exists_and_left] at hb ⊢
  obtain ⟨hbuilt, hne, hmodel⟩ := hb
  exact ⟨hbuilt, fun hnil => hne (hnil ▸ h.components).eq_nil, h.exists_model hmodel⟩

end Declared.Project.Rearranges

/-! ## What is bound -/

namespace Model

open EventLinking

variable {m m' : Model} {p p' : Declared.Project} {layout : Layout}

theorem IsFilled.rearranged_agreesOn (h : m.IsFilled p layout) (h' : m'.IsFilled p' layout)
    (hp : p.Rearranges p') (hnames : (p.components.map (·.name)).Nodup) :
    m.AgreesOn m' fun _ => True := by
  obtain ⟨d, hd, hagrees⟩ := hp.deployment_ok h.deployment
  cases Except.ok.inj (hd.symm.trans h'.deployment)
  have hregistry : m'.registry = m.registry :=
    Except.ok.inj (h'.registry.symm.trans (hp.registry_eq.symm.trans h.registry))
  refine ⟨hagrees, fun kind hlinked name _ => ?_⟩
  rw [h.ofComponent_eq hlinked, h'.ofComponent_eq hlinked,
    ← filter_eq_of_perm hp.components hnames, hregistry]
  refine List.flatMap_congr fun c hc => ?_
  rw [(h.buildable c (List.mem_filter.mp hc).1).filterMap_built_eq hagrees hlinked]

/-- In models that agree the same is bound under the same names. -/
theorem AgreesOn.exists_designate_eq (h : m.AgreesOn m' fun _ => True) (hm : m.IsPopulated p)
    (hm' : m'.IsPopulated p') {table : Model → BindingTable EntityId}
    (htable : table ∈ [Model.events, Model.requests, Model.data]) {x : Binding EntityId}
    (hx : x ∈ (table m.link.1).toList) :
    ∃ x' ∈ (table m'.link.1).toList, m'.link.1.designate x' = m.link.1.designate x := by
  have hwell : m.link.1.IsWellBound := hm.isWellBound rfl
  obtain ⟨⟨hsender, hreceiver⟩, hs, hr⟩ := hwell.isLinked htable hx
  obtain ⟨⟨kind, s⟩, k, ⟨kind', r⟩, k'⟩ := x
  rw [isSome_entity?_link] at hsender hreceiver
  obtain ⟨e, he⟩ : ∃ e, (m.store kind).get? s = some e := Option.isSome_iff_exists.mp hsender
  obtain ⟨f, hf⟩ : ∃ f, (m.store kind').get? r = some f := Option.isSome_iff_exists.mp hreceiver
  obtain ⟨s', he'⟩ := h.exists_get? kind hs he trivial
  obtain ⟨r', hf'⟩ := h.exists_get? kind' hr hf trivial
  refine ⟨⟨⟨kind, s'⟩, k, ⟨kind', r'⟩, k'⟩,
    (h.mem_table_iff hm hm' he he' hf hf' trivial htable).mp hx, ?_⟩
  simp only [designate, designation?_link]
  simp only [designation?, entity?, he, he', hf, hf']

/-! ## What externals take -/

theorem mem_externals_link {x : External} : x ∈ m.link.1.externals.items ↔
    ∃ i e, m.externals.get? i = some e ∧ x = m.linkedEntity .external i e := by
  rw [Store.mem_items]
  refine exists_congr fun i => ?_
  have hget : m.link.1.externals.get? i = (m.externals.get? i).map (m.linkedEntity .external i) :=
    m.get?_store_link .external i
  rw [hget, Option.map_eq_some_iff]
  exact exists_congr fun e => and_congr_right fun _ => eq_comm

theorem AgreesOn.linkedEntity_external (h : m.AgreesOn m' fun _ => True) {i i' : Nat}
    {e : External} (he : m.externals.get? i = some e) (he' : m'.externals.get? i' = some e) :
    m.linkedEntity .external i e = m'.linkedEntity .external i' e := by
  simp only [linkedEntity, externalInputs_congr h he he' trivial]

/-- In models that agree the same externals take the same inputs. -/
theorem AgreesOn.mem_externals_link (h : m.AgreesOn m' fun _ => True) {x : External}
    (hx : x ∈ m.link.1.externals.items) : x ∈ m'.link.1.externals.items := by
  obtain ⟨i, e, he, rfl⟩ := Model.mem_externals_link.mp hx
  obtain ⟨i', he'⟩ := h.exists_get? .external rfl he trivial
  exact Model.mem_externals_link.mpr ⟨i', e, he', h.linkedEntity_external he he'⟩

/-- In the project, externals that are called the same are the same. -/
theorem IsPopulated.external_eq (h : m.IsPopulated p)
    (hnames : (p.components.map (·.name)).Nodup) {i j : Nat} {e f : External}
    (he : m.externals.get? i = some e) (hf : m.externals.get? j = some f)
    (hef : Designation.of .external e = Designation.of .external f) : e = f := by
  obtain ⟨c, hc, _, hcomponent, hinputs, hlinks⟩ := h.exists_declares .external he
  obtain ⟨d, hd, _, hcomponent', hinputs', hlinks'⟩ := h.exists_declares .external hf
  have hsame : e.component = f.component := congrArg Designation.component hef
  have hname : e.name = f.name := congrArg Designation.name hef
  have hlanguage : e.language = f.language :=
    Option.some.inj (congrArg Designation.language hef)
  cases List.inj_on_of_nodup_map hnames hc hd (hcomponent.symm.trans (hsame.trans hcomponent'))
  have hinputs : e.inputs = f.inputs := hinputs.trans hinputs'.symm
  have hlinks : e.links = f.links := by rw [hlinks, hlinks', hname, hlanguage]
  obtain ⟨_, _, _, _, _⟩ := e
  exact (External.mk.injEq ..).mpr ⟨hsame, hname, hlanguage, hinputs, hlinks⟩

/-- Linking does not tell them apart. -/
theorem IsPopulated.external_link_eq (h : m.IsPopulated p)
    (hnames : (p.components.map (·.name)).Nodup) {x y : External}
    (hx : x ∈ m.link.1.externals.items) (hy : y ∈ m.link.1.externals.items)
    (hxy : Designation.of .external x = Designation.of .external y) : x = y := by
  obtain ⟨i, e, he, rfl⟩ := mem_externals_link.mp hx
  obtain ⟨j, f, hf, rfl⟩ := mem_externals_link.mp hy
  obtain rfl := h.external_eq hnames he hf hxy
  exact (AgreesOn.refl m _).linkedEntity_external he hf

end Model

/-- The order of component implementations and of protection domains is of no account. A project has
a model in one order when it has one in the other. Both models have the same bindings in each table,
with the entities called by their names, and the same externals with the same inputs. -/
theorem Builder.Builds.rearranges {b : Builder} {p : Declared.Project}
    (h : b.project.Rearranges p) (hnames : (b.project.components.map (·.name)).Nodup) :
    ((∃ m, b.Builds m) ↔ ∃ m, { b with project := p }.Builds m) ∧
    ∀ m m', b.Builds m → { b with project := p }.Builds m' →
      (∀ table ∈ [Model.events, Model.requests, Model.data], ∀ x,
        x ∈ (table m).toList.map m.designate ↔ x ∈ (table m').toList.map m'.designate) ∧
      (∀ e, e ∈ m.externals.items ↔ e ∈ m'.externals.items) ∧
      ∀ e ∈ m.externals.items, ∀ e' ∈ m'.externals.items,
        Designation.of .external e = Designation.of .external e' → e.inputs = e'.inputs := by
  refine ⟨⟨fun hb => h.exists_builds hb, fun hb => h.symm.exists_builds hb⟩, ?_⟩
  intro m m' hb hb'
  obtain ⟨m₀, hm₀, hlink⟩ := hb.exists_filled
  obtain ⟨m₀', hm₀', hlink'⟩ := hb'.exists_filled
  have hagrees := hm₀.rearranged_agreesOn hm₀' h hnames
  rw [hlink, hlink']
  refine ⟨fun table htable x => ?_, fun e => ⟨hagrees.mem_externals_link,
    hagrees.symm.mem_externals_link⟩, fun e he e' he' hsame => ?_⟩
  · simp only [List.mem_map]
    constructor
    · rintro ⟨y, hy, rfl⟩
      exact hagrees.exists_designate_eq hm₀.isPopulated hm₀'.isPopulated htable hy
    · rintro ⟨y, hy, rfl⟩
      exact hagrees.symm.exists_designate_eq hm₀'.isPopulated hm₀.isPopulated htable hy
  · rw [hm₀.isPopulated.external_link_eq hnames he (hagrees.symm.mem_externals_link he') hsame]

/-! ## Readers that change places -/

namespace Declared

/-- Two components that read what the first writes, each in a protection domain of its own. -/
def readingProject : Project where
  libraries := []
  components := [gaugingComponent false false, showingComponent]
  deployment := ⟨[⟨"near", [⟨"a", "gauge"⟩, ⟨"a", "dial"⟩]⟩, ⟨"far", [⟨"b", "dial"⟩]⟩]⟩
  assembly := ⟨[⟨"a", "A", ∅⟩, ⟨"b", "B", ∅⟩], [⟨⟨"b", "r"⟩, ⟨"a", "s"⟩⟩]⟩

def swappedProject : Project where
  libraries := []
  components := [showingComponent, gaugingComponent false false]
  deployment := ⟨[⟨"far", [⟨"b", "dial"⟩]⟩, ⟨"near", [⟨"a", "gauge"⟩, ⟨"a", "dial"⟩]⟩]⟩
  assembly := ⟨[⟨"a", "A", ∅⟩, ⟨"b", "B", ∅⟩], [⟨⟨"b", "r"⟩, ⟨"a", "s"⟩⟩]⟩

end Declared

open Declared in
/-- The reader far away is second in one order and first in the other; by its name it is bound in
both. -/
theorem Builder.Builds.rearranges_readingProject :
    ∃ m m', (Builder.new readingProject).Builds m ∧ (Builder.new swappedProject).Builds m' ∧
      readingProject.Rearranges swappedProject ∧
      (readingProject.components.map (·.name)).Nodup ∧
      m.data.contains ⟨⟨.dataWritten, 0⟩, "gauge:a:height", ⟨.dataRead, 1⟩, "dial:b:shown"⟩ ∧
      m'.data.contains ⟨⟨.dataWritten, 0⟩, "gauge:a:height", ⟨.dataRead, 0⟩, "dial:b:shown"⟩ ∧
      ⟨some ⟨.dataWritten, "A", some "measuring", "height", none⟩, "gauge:a:height",
        some ⟨.dataRead, "B", some "showing", "shown", none⟩, "dial:b:shown"⟩ ∈
          m'.data.toList.map m'.designate := by
  have hb : (Builder.new readingProject).Builds _ := ⟨_, _, rfl, rfl⟩
  have hb' : (Builder.new swappedProject).Builds _ := ⟨_, _, rfl, rfl⟩
  have hnames : (readingProject.components.map (·.name)).Nodup := by decide
  have hswapped : readingProject.Rearranges swappedProject :=
    ⟨rfl, .swap .., .swap .., rfl⟩
  obtain ⟨-, hsame⟩ := rearranges (b := Builder.new readingProject) hswapped hnames
  obtain ⟨htables, -⟩ := hsame _ _ hb hb'
  refine ⟨_, _, hb, hb', hswapped, hnames, rfl, rfl,
    (htables Model.data (by simp) _).mp (List.mem_map.mpr ⟨
      ⟨⟨.dataWritten, 0⟩, "gauge:a:height", ⟨.dataRead, 1⟩, "dial:b:shown"⟩,
      BindingTable.mem_toList.mpr rfl, rfl⟩)⟩

end Ecoa
