import Ecoa.Proofs.Linking.Parties
import Ecoa.Proofs.Linking.Steps

/-!
# Which data is bound

A writer is bound to a reader by a data link of their component, or by a data link of each of their
components to a service and from a reference that a wire joins. The keys that are stamped on a
writer or a reader are those under which it is bound.
-/

namespace Ecoa

namespace DataLinking

variable {m : Model}

theorem mem_pairKeys {x y : Party} {p : LinkPair} {k : String × String} :
    k ∈ pairKeys m x y p ↔
      ((p.senderDeclared.kind = .moduleInstance ∧ p.receiverDeclared.kind = .moduleInstance) ∧
        p.isMutual = true ∧ k ∈ m.deployment.directKeys .withOperation x y p) ∨
      ((p.senderDeclared.kind = .service ∧ p.receiverDeclared.kind = .reference) ∧
        k ∈ m.deployment.wiredKeys .withOperation x y p) := by
  unfold pairKeys
  split
  · next h h' =>
    rw [h, h']
    cases p.isMutual <;> simp
  · next h h' => simp [h, h']
  · next h h' =>
    simp only [List.not_mem_nil, false_iff]
    rintro (⟨⟨hs, hr⟩, -⟩ | ⟨⟨hs, hr⟩, -⟩)
    · exact h hs hr
    · exact h' hs hr

theorem bindings_eq : bindings m = (m.parties .dataWritten).flatMap fun x =>
    (m.parties .dataRead).flatMap fun y => bindingsUnder x.id y.id
      ((LinkPair.all x.links y.links).flatMap (pairKeys m x y)) := by
  simp only [bindings, bindingsUnder, List.map_flatMap]

/-- The keys under which a writer is bound to a reader. -/
theorem mem_bindings {s r : Nat} {w : DataWritten} {f : DataRead}
    (hs : m.dataWritten.get? s = some w) (hr : m.dataRead.get? r = some f) {sk rk : String} :
    ⟨⟨.dataWritten, s⟩, sk, ⟨.dataRead, r⟩, rk⟩ ∈ bindings m ↔
      (sk, rk) ∈ (LinkPair.all w.links f.links).flatMap
        (pairKeys m (.of .dataWritten s w) (.of .dataRead r f)) := by
  rw [bindings_eq]
  exact Model.mem_flatMap_parties .dataWritten .dataRead hs hr

/-- Data goes from writers to readers. -/
theorem kinds_of_mem_bindings {b : Binding EntityId} (h : b ∈ bindings m) :
    b.sender.kind = .dataWritten ∧ b.receiver.kind = .dataRead := by
  rw [bindings_eq] at h
  simp only [List.mem_flatMap, bindingsUnder, List.mem_map] at h
  obtain ⟨x, hx, y, hy, k, -, rfl⟩ := h
  obtain ⟨i, w, -, rfl⟩ := Model.mem_parties.mp hx
  obtain ⟨j, f, -, rfl⟩ := Model.mem_parties.mp hy
  exact ⟨rfl, rfl⟩

theorem mem_keys_stamp {links : Links} {flags : OrderedMap String Bool} {keys : List String}
    {key : String} : key ∈ (stamp links flags keys).keys ↔ key ∈ flags.keys ∨ key ∈ keys := by
  unfold stamp
  induction keys generalizing flags with
  | nil => simp
  | cons k keys ih => rw [List.foldl_cons, ih, OrderedMap.mem_keys_insert, List.mem_cons, or_assoc]

/-- On an operation without stamps, the bound keys are stamped and no others. -/
theorem mem_keys_stamp_bound {found : List (Binding EntityId)} {links : Links}
    {id : Binding EntityId → EntityId} {own : Binding EntityId → String} {kind : EntityKind}
    (hkind : ∀ b ∈ found, (id b).kind = kind) {i : Nat} {key : String} :
    key ∈ (stamp links ∅ ((found.filter fun b => (id b).index = i).map own)).keys ↔
      ∃ b ∈ found, id b = ⟨kind, i⟩ ∧ own b = key := by
  rw [mem_keys_stamp]
  simp only [OrderedMap.keys_empty, List.not_mem_nil, false_or, List.mem_map, List.mem_filter,
    decide_eq_true_eq]
  constructor
  · rintro ⟨b, ⟨hb, rfl⟩, rfl⟩
    exact ⟨b, hb, by rw [← hkind b hb], rfl⟩
  · rintro ⟨b, hb, hid, rfl⟩
    exact ⟨b, ⟨hb, congrArg EntityId.index hid⟩, rfl⟩

end DataLinking

/-- The writer reaches the reader when they run under these component instances: in one component by
a data link, or from a service to a reference that a wire joins. -/
def Declared.Project.Supplies (p : Declared.Project) (c d : Declared.Component)
    (writer reader : Port) (u v : String) : Prop :=
  (c = d ∧ c.Shares writer reader) ∨
    ∃ service reference operation, c.Shares writer ⟨.service, service, operation⟩ ∧
      d.Shares ⟨.reference, reference, operation⟩ reader ∧
        p.assembly.Joins ⟨u, service⟩ ⟨v, reference⟩

/-- The pairs of declarations of two operations give the keys under which one supplies the other. -/
theorem DataLinking.mem_keys {m : Model} {p : Declared.Project} (hm : m.IsPopulated p)
    {x y : Party} {c d : Declared.Component} {implementation implementation' name name' : String}
    (hx : x.IsOperation LinkFamily.data.senders c implementation name)
    (hy : y.IsOperation LinkFamily.data.receivers d implementation' name')
    (hsame : c.name = d.name → c = d) {k : String × String} :
    k ∈ (LinkPair.all x.links y.links).flatMap (pairKeys m x y) ↔
      ∃ i u j v, m.deployment.Runs c implementation i u ∧ m.deployment.Runs d implementation' j v ∧
        k = (i ++ ":" ++ u ++ ":" ++ name, j ++ ":" ++ v ++ ":" ++ name') ∧
          p.Supplies c d ⟨.moduleInstance, i, name⟩ ⟨.moduleInstance, j, name'⟩ u v := by
  refine (m.deployment.mem_flatMap_pairKeys .withOperation hx hy hsame fun _ =>
    mem_pairKeys).trans ?_
  simp only [hm.wires]
  exact Iff.rfl

namespace Model

variable {m : Model} {p : Declared.Project}

/-- Linking binds the data that is found, and no other. -/
theorem IsPopulated.contains_data (h : m.IsPopulated p) {x : Binding EntityId} :
    (m.data.bindAll (DataLinking.bindings m)).1.contains x = true ↔
      x ∈ DataLinking.bindings m := by
  rw [← BindingTable.mem_toList, BindingTable.mem_toList_bindAll, h.data]
  simp

/-- A writer that is stamped is a writer of a component. -/
theorem IsPopulated.exists_writer (h : m.IsPopulated p) {s : Nat} {w : DataWritten}
    (hs : m.stampedWriters.get? s = some w) :
    ∃ w₀, m.dataWritten.get? s = some w₀ ∧ w = { w₀ with
      controlled := DataLinking.stamp w₀.links ∅
        (((DataLinking.bindings m).filter (·.sender.index = s)).map (·.senderKey)) } := by
  rw [stampedWriters, Store.get?_mapWithIndex, Option.map_eq_some_iff] at hs
  obtain ⟨w₀, hw₀, rfl⟩ := hs
  obtain ⟨c, -, g, -, hcontrolled⟩ := h.exists_declares .dataWritten hw₀
  exact ⟨w₀, hw₀, by rw [hcontrolled]⟩

/-- A reader that is stamped is a reader of a component. -/
theorem IsPopulated.exists_reader (h : m.IsPopulated p) {r : Nat} {f : DataRead}
    (hr : m.stampedReaders.get? r = some f) :
    ∃ f₀, m.dataRead.get? r = some f₀ ∧ f = { f₀ with
      controlled := DataLinking.stamp f₀.links ∅
        (((DataLinking.bindings m).filter (·.receiver.index = r)).map (·.receiverKey)) } := by
  rw [stampedReaders, Store.get?_mapWithIndex, Option.map_eq_some_iff] at hr
  obtain ⟨f₀, hf₀, rfl⟩ := hr
  obtain ⟨c, -, g, -, hcontrolled⟩ := h.exists_declares .dataRead hf₀
  exact ⟨f₀, hf₀, by rw [hcontrolled]⟩

end Model

/-- A writer is bound to a reader exactly under the keys of module instances of theirs of which one
supplies the other, and each of them has a flag for exactly the keys under which it is bound. -/
theorem Builder.Builds.contains_data_iff {b : Builder} {m : Model} (hb : b.Builds m)
    (hnames : (b.project.components.map (·.name)).Nodup) :
    (∀ s r w f, m.dataWritten.get? s = some w → m.dataRead.get? r = some f → ∀ sk rk,
      (m.data.contains ⟨⟨.dataWritten, s⟩, sk, ⟨.dataRead, r⟩, rk⟩ = true ↔
        ∃ c ∈ b.project.components, ∃ d ∈ b.project.components,
          c.name = w.scope.component ∧ d.name = f.scope.component ∧
            ∃ i u j v, m.deployment.Runs c w.scope.moduleImplementation i u ∧
              m.deployment.Runs d f.scope.moduleImplementation j v ∧
              sk = i ++ ":" ++ u ++ ":" ++ w.name ∧ rk = j ++ ":" ++ v ++ ":" ++ f.name ∧
              b.project.Supplies c d ⟨.moduleInstance, i, w.name⟩ ⟨.moduleInstance, j, f.name⟩
                u v)) ∧
    (∀ s w, m.dataWritten.get? s = some w → ∀ key, key ∈ w.controlled.keys ↔
      ∃ reader rk, m.data.contains ⟨⟨.dataWritten, s⟩, key, reader, rk⟩ = true) ∧
    ∀ r f, m.dataRead.get? r = some f → ∀ key, key ∈ f.controlled.keys ↔
      ∃ writer sk, m.data.contains ⟨writer, sk, ⟨.dataRead, r⟩, key⟩ = true := by
  obtain ⟨m₀, hm₀, rfl⟩ := hb.exists_steps
  dsimp only
  simp only [hm₀.contains_data]
  refine ⟨fun s r w f hs hr sk rk => ?_, fun s w hs key => ?_, fun r f hr key => ?_⟩
  · obtain ⟨w, hw, rfl⟩ := hm₀.exists_writer hs
    obtain ⟨f, hf, rfl⟩ := hm₀.exists_reader hr
    dsimp only
    obtain ⟨c, hc, hcname, hwriter⟩ := hm₀.exists_operation .dataWritten hw
      LinkFamily.data.senders fun _ _ h => h.1
    obtain ⟨d, hd, hdname, hreader⟩ := hm₀.exists_operation .dataRead hf
      LinkFamily.data.receivers fun _ _ h => h.1
    rw [DataLinking.mem_bindings hw hf, ← hcname, ← hdname,
      Declared.Project.exists_components_iff hnames hc hd]
    refine (DataLinking.mem_keys hm₀ hwriter hreader
      (List.inj_on_of_nodup_map hnames hc hd)).trans ?_
    simp only [Prod.mk.injEq, and_assoc]
    exact Iff.rfl
  · obtain ⟨w, hw, rfl⟩ := hm₀.exists_writer hs
    refine (DataLinking.mem_keys_stamp_bound fun b hb =>
      (DataLinking.kinds_of_mem_bindings hb).1).trans ?_
    constructor
    · rintro ⟨⟨_, _, reader, rk⟩, hb, rfl, rfl⟩
      exact ⟨reader, rk, hb⟩
    · rintro ⟨reader, rk, hb⟩
      exact ⟨_, hb, rfl, rfl⟩
  · obtain ⟨f, hf, rfl⟩ := hm₀.exists_reader hr
    refine (DataLinking.mem_keys_stamp_bound fun b hb =>
      (DataLinking.kinds_of_mem_bindings hb).2).trans ?_
    constructor
    · rintro ⟨⟨writer, sk, _, _⟩, hb, rfl, rfl⟩
      exact ⟨writer, sk, hb⟩
    · rintro ⟨writer, sk, hb⟩
      exact ⟨_, hb, rfl, rfl⟩

/-! ## Data over a wire -/

namespace Declared

/-- A component with one writer, which offers its data at the service `s`, under no control. -/
def measuringComponent : Component where
  name := "A"
  directory := "A"
  uses := []
  moduleTypes := [⟨"Measuring", { Operations.none with
    dataWritten := [⟨"height", "int32", none, false⟩] }, [], [], []⟩]
  moduleImplementations := [⟨"measuring", "Measuring", "C"⟩]
  moduleInstances := [⟨"gauge", "measuring", [], []⟩]
  triggerInstances := []
  dynamicTriggerInstances := []
  eventLinks := []
  requestLinks := []
  dataLinks := [⟨.ofList [(.moduleInstance, [⟨"gauge", "height", none, none⟩])],
    .ofList [(.service, [⟨"s", "level", none, none⟩])], false⟩]

/-- A component with one reader, which takes its data from the reference `r`. -/
def showingComponent : Component where
  name := "B"
  directory := "B"
  uses := []
  moduleTypes := [⟨"Showing", { Operations.none with
    dataRead := [⟨"shown", "int32", none, false⟩] }, [], [], []⟩]
  moduleImplementations := [⟨"showing", "Showing", "C"⟩]
  moduleInstances := [⟨"dial", "showing", [], []⟩]
  triggerInstances := []
  dynamicTriggerInstances := []
  eventLinks := []
  requestLinks := []
  dataLinks := [⟨.ofList [(.reference, [⟨"r", "level", none, none⟩])],
    .ofList [(.moduleInstance, [⟨"dial", "shown", none, none⟩])], true⟩]

def measuringProject : Project where
  libraries := []
  components := [measuringComponent, showingComponent]
  deployment := ⟨[⟨"pd", [⟨"a", "gauge"⟩, ⟨"b", "dial"⟩]⟩]⟩
  assembly := ⟨[⟨"a", "A", ∅⟩, ⟨"b", "B", ∅⟩], [⟨⟨"b", "r"⟩, ⟨"a", "s"⟩⟩]⟩

end Declared

open Declared in
theorem Builder.Builds.contains_data_measuringProject :
    ∃ m, (Builder.new measuringProject).Builds m ∧
      (measuringProject.components.map (·.name)).Nodup ∧
      ∃ w f, m.dataWritten.get? 0 = some w ∧ m.dataRead.get? 0 = some f ∧
        m.data.contains
          ⟨⟨.dataWritten, 0⟩, "gauge:a:height", ⟨.dataRead, 0⟩, "dial:b:shown"⟩ = true ∧
        "gauge:a:height" ∈ w.controlled.keys ∧ "dial:b:shown" ∈ f.controlled.keys := by
  refine ⟨_, ⟨_, _, rfl, rfl⟩, by decide, _, _, rfl, rfl, ?_⟩
  obtain ⟨hbound, hwriters, hreaders⟩ :=
    contains_data_iff (b := Builder.new measuringProject) ⟨_, _, rfl, rfl⟩ (by decide)
  have hdata := (hbound 0 0 _ _ rfl rfl "gauge:a:height" "dial:b:shown").mpr
    ⟨measuringComponent, by simp [Builder.new, measuringProject], showingComponent,
      by simp [Builder.new, measuringProject], rfl, rfl, "gauge", "a", "dial", "b",
      ⟨by decide, by decide⟩, ⟨by decide, by decide⟩, rfl, rfl, .inr ⟨"s", "r", "level",
        ⟨_, List.mem_cons_self, by decide, by decide⟩,
        ⟨_, List.mem_cons_self, by decide, by decide⟩, ⟨_, List.mem_cons_self, .inr ⟨rfl, rfl⟩⟩⟩⟩
  exact ⟨hdata, (hwriters 0 _ rfl _).mpr ⟨_, _, hdata⟩, (hreaders 0 _ rfl _).mpr ⟨_, _, hdata⟩⟩

end Ecoa
