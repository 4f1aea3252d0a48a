import Ecoa.Proofs.Model.SortedTypes

/-!
# Walks through built models

A walk through a model that is built comes to every entity and to every declaration once
(`Builder.walk_of_build`). The entities are as many as the build has counted.
-/

namespace Ecoa

namespace Model

variable {m m' : Model} {layout : Layout}

theorem sortedTypes_insertAll (m : Model) (xs : List Entry) :
    (m.insertAll xs).sortedTypes = m.sortedTypes := by
  unfold insertAll
  induction xs generalizing m with
  | nil => rfl
  | cons x xs ih =>
    rw [List.foldl_cons, ih]
    obtain ⟨kind, g, e⟩ := x
    cases kind <;> rfl

/-- Components add nothing to the libraries. -/
theorem sortedTypes_addComponents {cs : List Declared.Component} {n : Nat}
    (h : m.addComponents layout cs = .ok (m', n)) : m'.sortedTypes = m.sortedTypes := by
  induction cs generalizing m n with
  | nil =>
    cases h
    rfl
  | cons c cs ih =>
    unfold addComponents at h
    split at h
    · next m₁ counts hc =>
      obtain ⟨⟨m₂, k⟩, hcs, ⟨⟩⟩ := bind_ok_iff.mp h
      obtain ⟨sites, found, -, -, rfl⟩ := addComponent_ok_iff.mp ⟨counts, hc⟩
      rw [ih hcs, sortedTypes_insertAll]
      rfl
    · cases h

end Model

/-- A model that is built has its libraries in emission order, and as many entities as are
counted. -/
theorem Declared.Project.isSorted_of_model_ok {p : Declared.Project} {config : BuildConfig}
    {m : Model} {summary : BuildSummary} (h : p.model config = .ok (m, summary)) :
    p.registry = .ok m.registry ∧ m.IsSorted ∧ m.visits.length = summary.entities := by
  obtain ⟨r, d, _, typed, m₀, n, _, hr, hd, -, htyped, hm₀, -, hlink, hcount⟩ :=
    exists_steps_of_model_ok h
  obtain ⟨hfilled, rfl, rfl⟩ := Model.isFilled_of_addComponents hr hd htyped hm₀
  have hregistry : m.registry = m₀.registry := by rw [hlink, Model.link_fst_eq]
  have hkept : m.sortedTypes = m₀.sortedTypes := by rw [hlink, Model.link_fst_eq]
  have hext := (Model.addComponents_ok hm₀).1
  refine ⟨hregistry ▸ hr, ?_, ?_⟩
  · have htypes := Model.isSorted_of_sortTypes rfl htyped
    rwa [Model.IsSorted, hregistry, hext.registry, hkept, Model.sortedTypes_addComponents hm₀]
  · rw [hlink, hfilled.length_visits_link, hcount, Model.addComponents_count hm₀, hext.registry,
      hext.deployment]

/-- A walk through a model that is built. Any visitor that has no way of its own with libraries does
what it does at each stop, in order, and for an entity calls the method for the kind of the entity.
The entities at the stops are those of the model, each once, kind by kind and by ascending number,
and as many as the build has counted. The declarations at the stops are those of the registered
libraries, each once and after the declarations of its library to which it refers. -/
theorem Builder.walk_of_build {b b' : Builder} {summary : BuildSummary} {m : Model}
    (hb : b.build = (b', .ok summary)) (hm : b'.model = some m) :
    (∀ (σ : Type) (v : Visitor σ), v.library = v.walkLibrary → ∀ s,
      v.walkModel m s = m.walk.foldl (fun s stop => v.visit stop s) s) ∧
    Visitor.recorder.walkModel m [] = m.visits.map (fun x => ⟨x.1.kind, x.2, x.1⟩) ∧
    (∀ id e, ⟨id, e⟩ ∈ m.visits ↔ m.entity? id = some e) ∧
    m.visits.Pairwise (fun x y => x.1.Precedes y.1) ∧
    m.visits.length = summary.entities ∧
    b.project.registry = .ok m.registry ∧
    m.visitedTypes.Perm m.registry.declarations ∧
    (m.visitedTypes.map fun e => (⟨e.1, e.2.name⟩ : TypeName)).Nodup ∧
    ∀ before library d after, m.visitedTypes = before ++ (library, d) :: after →
      ∀ ref ∈ d.references, ∃ t,
        (∀ context, m.registry.resolveFrom ref.name library context = .ok t) ∧
        (t.library = library → ∀ e, m.registry.declaration? t = some e →
          (library, e) ∈ before) := by
  obtain ⟨-, -, hmodel⟩ := model_of_build hb hm
  obtain ⟨hregistry, hsorted, hcount⟩ := Declared.Project.isSorted_of_model_ok hmodel
  have hnormalized := Declared.Project.isNormalized_of_registry hregistry
  have honce : m.registry.DeclaresOnce := by
    rw [Declared.Project.eq_ofCalls_of_registry hregistry]
    exact TypeRegistry.declaresOnce_ofCalls _
  have hperm := hsorted.perm_visitedTypes hnormalized
  refine ⟨fun σ v hlibrary s => v.walkModel_eq hlibrary m s, Visitor.walkModel_recorder m,
    fun id e => m.mem_visits_iff, m.pairwise_visits, hcount, hregistry, hperm, ?_, ?_⟩
  · rw [(hperm.map _).nodup_iff]
    exact TypeRegistry.nodup_names_declarations hnormalized honce
  · intro before library d after hsplit ref href
    exact hsorted.exists_resolveFrom hnormalized honce hsplit href

/-! ## A module that sends a track -/

namespace Declared

/-- A project with a library of types and a component that sends an event; there are a timer and a
delay as well. -/
def trackingProject : Project where
  libraries := [⟨"geo", TypeOrder.trackTypes⟩]
  components := [{
    name := "C"
    directory := "C"
    uses := ["geo"]
    moduleTypes := [
      ⟨"Sending", { Operations.none with eventSent := [⟨"go", [⟨"track", "Track"⟩]⟩] }, [], [], []⟩]
    moduleImplementations := [⟨"sending", "Sending", "C"⟩]
    moduleInstances := [⟨"s", "sending", [], []⟩]
    triggerInstances := [⟨"t"⟩]
    dynamicTriggerInstances := [⟨"d", []⟩]
    eventLinks := []
    requestLinks := []
    dataLinks := [] }]
  deployment := ⟨[⟨"pd", [⟨"c", "s"⟩]⟩]⟩
  assembly := ⟨[⟨"c", "C", ∅⟩], []⟩

end Declared

open TypeOrder in
theorem TypeRegistry.sorted_trackRegistry : trackRegistry.sorted "geo" = .ok sortedTrackTypes := by
  have hpositions : (TypeOrder.new trackRegistry "geo" trackTypes).positions =
      .ok [2, 3, 1, 0] := by decide +kernel
  exact map_ok_iff.mpr ⟨_, hpositions, rfl⟩

open TypeOrder (sortedTrackTypes) in
/-- A dynamic trigger counts twice, and the points come before the array of them. -/
theorem Builder.walk_of_build_trackingProject :
    ∃ b' m summary, (Builder.new Declared.trackingProject).build = (b', .ok summary) ∧
      b'.model = some m ∧ summary.entities = 4 ∧ m.visits.length = 4 ∧
      m.visitedTypes = sortedTrackTypes.map (fun d => ("geo", d)) ∧
      ∃ t, m.registry.resolveFrom "geo:Point" "geo" "" = .ok t ∧
        ∀ e, m.registry.declaration? t = some e →
          ("geo", e) ∈ (sortedTrackTypes.take 2).map fun d => ("geo", d) := by
  have hmodel : Declared.trackingProject.model .default = .ok (_, _) :=
    Declared.Project.model_of_steps rfl rfl rfl
      (Model.sortTypes_of_libraryNames rfl TypeRegistry.sorted_trackRegistry) rfl rfl
  have hb := build_of_model (b := Builder.new Declared.trackingProject) rfl
    (List.cons_ne_nil _ _) hmodel
  obtain ⟨-, -, -, -, hlength, -, -, -, hbefore⟩ := walk_of_build hb rfl
  obtain ⟨t, ht, hpoint⟩ := hbefore ((sortedTrackTypes.take 2).map fun d => ("geo", d)) "geo"
    (.array "Points" "geo:Point" "%Max%") _ rfl (.type "geo:Point") List.mem_cons_self
  refine ⟨_, _, _, hb, rfl, rfl, hlength, rfl, t, ht "", hpoint ?_⟩
  exact (congrArg TypeName.library (Except.ok.inj (ht "")).symm).trans rfl

end Ecoa
