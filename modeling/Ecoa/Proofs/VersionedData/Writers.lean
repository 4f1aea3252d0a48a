import Ecoa.Proofs.Component.Kinds
import Ecoa.Proofs.Endpoint.Siblings
import Ecoa.Proofs.Linking.Data
import Ecoa.Proofs.VersionedData.FirstWrite

/-!
# The writers of one storage

The store of a writer declares the operation of the writer and those of its siblings, under the
instance that a key names. Siblings are told by the name of their instance alone: a service or a
reference with the name of the module instance is among them when a data link lists it next to the
writer. Where no link does so, all siblings are operations of the module instance.
-/

namespace Ecoa

namespace Declared

instance (c : Component) (a b : EndpointId) : Decidable (c.WritesTogether a b) :=
  inferInstanceAs (Decidable (∃ l ∈ c.dataLinks, _))

/-- Other endpoints with the name of the instance that the data links list next to this writer are
operations of module instances, too. -/
def Component.WritesApart (c : Component) (a : EndpointId) : Prop :=
  ∀ x, c.WritesTogether a x → x.instanceName = a.instanceName → x.operation ≠ a.operation →
    x.kind = .moduleInstance

variable {c : Component} {a b : EndpointId}

theorem EndpointGroups.language_of_mem_ids {groups : EndpointGroups}
    (h : a ∈ groups.ids Endpoint.noLanguage) : a.language = none := by
  unfold ids at h
  simp only [List.mem_flatMap, List.mem_map] at h
  obtain ⟨_, -, _, -, rfl⟩ := h
  rfl

theorem Component.WritesTogether.language_eq (h : c.WritesTogether a b) : b.language = none := by
  obtain ⟨l, -, -, -, hb⟩ := h
  exact EndpointGroups.language_of_mem_ids hb

theorem Component.mem_readWriters : a ∈ c.readWriters ↔ c.WritesTogether a a := by
  simp only [readWriters, WritesTogether, List.mem_flatMap, List.mem_filter, decide_eq_true_eq,
    and_self, and_assoc]

theorem Component.WritesTogether.left (h : c.WritesTogether a b) : c.WritesTogether a a := by
  obtain ⟨l, hl, hreaders, ha, -⟩ := h
  exact ⟨l, hl, hreaders, ha, ha⟩

end Declared

namespace EndpointIndex

variable {c : Declared.Component} {a : EndpointId} {instances : List String} {operation : String}

/-- The writers of a component are those of its data links that have readers. -/
theorem hasEndpoint_dataWriters :
    HasEndpoint ((build c).dataWriters.map Prod.fst) a ↔ c.WritesTogether a a := by
  have hkept : (build c).dataWriters.map Prod.fst = _ := Links.map_fst_ofJoins _
  rw [hkept, (Links.keepsFirsts_foldl _).hasEndpoint_iff, hasEndpoint_iff_mem, c.map_id_proper,
    Declared.Component.mem_readWriters]

theorem hasEndpoint_select {links : Links} :
    HasEndpoint ((select links instances operation).map Prod.fst) a ↔
      HasEndpoint (links.map Prod.fst) a ∧ a.kind = .moduleInstance ∧ a.operation = operation ∧
        a.instanceName ∈ instances := by
  simp only [HasEndpoint, select, List.mem_map, List.mem_filter, decide_eq_true_eq]
  constructor
  · rintro ⟨_, ⟨e, ⟨he, hpicked⟩, rfl⟩, rfl⟩
    exact ⟨⟨e.1, ⟨e, he, rfl⟩, rfl⟩, hpicked⟩
  · rintro ⟨⟨_, ⟨e, he, rfl⟩, rfl⟩, hpicked⟩
    exact ⟨e.1, ⟨e, ⟨he, hpicked⟩, rfl⟩, rfl⟩

end EndpointIndex

/-- The writer is one of this component, with the siblings of each of its endpoints. -/
structure DataWritten.IsOf (w : DataWritten) (c : Declared.Component) : Prop where
  operation : c.HasOperation (EndpointIndex.build c).dataWriters w.scope w.name w.links
  siblings : w.siblings = w.links.map fun e => (e.1, (EndpointIndex.build c).siblings e.1)

namespace DataWritten.IsOf

variable {c : Declared.Component} {w : DataWritten}

/-- The own endpoints of a writer are those of its operation, at instances of the implementation,
that a data link with readers lists. -/
theorem exists_siblings_iff (h : w.IsOf c) {a : EndpointId} :
    (∃ e ∈ w.siblings, e.1.id = a) ↔ c.WritesTogether a a ∧ a.kind = .moduleInstance ∧
      a.operation = w.name ∧ a.instanceName ∈ c.instancesOf w.scope.moduleImplementation := by
  rw [← EndpointIndex.hasEndpoint_dataWriters, ← EndpointIndex.hasEndpoint_select,
    ← h.operation.links, h.siblings]
  simp only [HasEndpoint, List.mem_map, exists_exists_and_eq_and]

theorem id_eq (h : w.IsOf c) {own : Endpoint} {others : List Endpoint}
    (hown : (own, others) ∈ w.siblings) :
    own.id = ⟨.moduleInstance, own.instanceName, w.name, none⟩ ∧
      own.instanceName ∈ c.instancesOf w.scope.moduleImplementation := by
  obtain ⟨htogether, hkind, hoperation, hinstance⟩ := h.exists_siblings_iff.mp ⟨_, hown, rfl⟩
  refine ⟨?_, hinstance⟩
  rw [← hkind, ← hoperation, ← htogether.language_eq]

theorem hasEndpoint_iff (h : w.IsOf c) {own : Endpoint} {others : List Endpoint}
    (hown : (own, others) ∈ w.siblings) {x : EndpointId} :
    HasEndpoint others x ↔ x.instanceName = own.instanceName ∧ x.operation ≠ w.name ∧
      c.WritesTogether own.id x := by
  have hoperation : own.operation = w.name := congrArg EndpointId.operation (h.id_eq hown).1
  rw [h.siblings, List.mem_map] at hown
  obtain ⟨e, -, ⟨⟩⟩ := hown
  have hsiblings := EndpointIndex.siblings_build_iff (c := c) (a := e.1) (b := ⟨x, none, none⟩)
  rw [hsiblings, hoperation, eq_comm, ne_comm]

/-- All siblings are operations of the module instance when no other port of its name is listed next
to the writer. -/
theorem forall_kind_iff (h : w.IsOf c) {own : Endpoint} {others : List Endpoint}
    (hown : (own, others) ∈ w.siblings) :
    (∀ x ∈ others, x.kind = .moduleInstance) ↔ c.WritesApart own.id := by
  have hoperation : own.operation = w.name := congrArg EndpointId.operation (h.id_eq hown).1
  constructor
  · intro hkind x htogether hinstance hne
    obtain ⟨y, hy, rfl⟩ := (h.hasEndpoint_iff hown).mpr ⟨hinstance, hoperation ▸ hne, htogether⟩
    exact hkind y hy
  · intro hapart x hx
    obtain ⟨hinstance, hne, htogether⟩ := (h.hasEndpoint_iff hown).mp ⟨x, hx, rfl⟩
    exact hapart x.id htogether hinstance (hoperation ▸ hne)

/-- The writers that the store behind a key declares. -/
theorem mem_keys_forWriter (h : w.IsOf c) {α : Type} {cells : Cells α} {initial : α}
    {key i v : String} (hi : (Text.fieldsOf ':' key).headD "" = i) :
    v ∈ (VersionedData.forWriter cells initial w key).2.firstWrite.keys ↔ v = w.name ∨
      (i ∈ c.instancesOf w.scope.moduleImplementation ∧ ∃ x : EndpointId, x.instanceName = i ∧
        x.operation = v ∧ c.WritesTogether ⟨.moduleInstance, i, w.name, none⟩ x) := by
  have hkeys : v ∈ (VersionedData.forWriter cells initial w key).2.firstWrite.keys ↔ v = w.name ∨
      ∃ own others, (own, others) ∈ w.siblings ∧ own.instanceName = i ∧
        ∃ x, HasEndpoint others x ∧ x.operation = v := by
    simp only [VersionedData.forWriter, hi, VersionedData.mem_keys_withSiblings,
      VersionedData.new, OrderedMap.keys_empty, List.not_mem_nil, false_or, List.mem_cons,
      List.mem_flatMap, List.mem_filter, List.mem_map, decide_eq_true_eq, Prod.exists, HasEndpoint,
      exists_exists_and_eq_and, and_assoc]
  rw [hkeys]
  constructor
  · rintro (rfl | ⟨own, others, hown, rfl, x, hx, rfl⟩)
    · exact .inl rfl
    · obtain ⟨hinstance, -, htogether⟩ := (h.hasEndpoint_iff hown).mp hx
      obtain ⟨hid, hmem⟩ := h.id_eq hown
      exact .inr ⟨hmem, x, hinstance, rfl, hid ▸ htogether⟩
  · rintro (rfl | ⟨hmem, x, hinstance, rfl, htogether⟩)
    · exact .inl rfl
    · -- an endpoint of the same operation is no sibling, and is declared anyway
      by_cases hname : x.operation = w.name
      · exact .inl hname
      · obtain ⟨⟨own, others⟩, hown, hid⟩ :=
          h.exists_siblings_iff.mpr ⟨htogether.left, rfl, rfl, hmem⟩
        have hi : own.instanceName = i := congrArg EndpointId.instanceName hid
        exact .inr ⟨own, others, hown, hi, x, (h.hasEndpoint_iff hown).mpr
          ⟨hinstance.trans hi.symm, hname, hid ▸ htogether⟩, rfl⟩

end DataWritten.IsOf

theorem ComponentContext.isOf_of_dataWrittenEntry {c : Declared.Component} {r : TypeRegistry}
    {deployment : Deployment} {layout : Layout} {sites : List ModuleSite} {site : ModuleSite}
    (hsite : site.IsOf c) {d : Declared.DataWritten} {group : String} {w : DataWritten}
    (h : (c.context r deployment layout sites).dataWrittenEntry site d =
      .ok ⟨.dataWritten, group, w⟩) : w.IsOf c := by
  obtain ⟨⟨type, category⟩, -, ⟨⟩⟩ := bind_ok_iff.mp h
  exact ⟨Declared.Component.hasOperation_of_isOf hsite _ _, rfl⟩

theorem Model.IsPopulated.exists_isOf {m : Model} {p : Declared.Project} (h : m.IsPopulated p)
    {s : Nat} {w : DataWritten} (hw : m.dataWritten.get? s = some w) :
    ∃ c ∈ p.components, w.IsOf c := by
  obtain ⟨group, hentry⟩ := Store.get?_eq_some_iff.mp hw
  obtain ⟨c, hc, found, layout, ⟨sites, hsites, hfound⟩, hmem⟩ :=
    h.origin ⟨.dataWritten, group, w⟩ (Array.mem_of_getElem? hentry)
  have hbuilt := hfound ▸ List.mem_map_of_mem (f := Except.ok) hmem
  obtain ⟨site, hsite, d, -, hd⟩ := ComponentContext.exists_dataWrittenEntry hbuilt rfl
  exact ⟨c, hc, ComponentContext.isOf_of_dataWrittenEntry (ModuleSite.isOf_of_all hsites hsite) hd⟩

/-- Linking leaves the endpoints of a writer and their siblings. -/
theorem Builder.Builds.exists_isOf {b : Builder} {m : Model} (hb : b.Builds m) {s : Nat}
    {w : DataWritten} (hw : m.dataWritten.get? s = some w) :
    ∃ c ∈ b.project.components, w.IsOf c := by
  obtain ⟨m₀, hm₀, rfl⟩ := hb.exists_steps
  obtain ⟨w₀, hw₀, rfl⟩ := hm₀.exists_writer hw
  obtain ⟨c, hc, hof⟩ := hm₀.exists_isOf hw₀
  exact ⟨c, hc, hof.operation, hof.siblings⟩

/-- In a model that is built every writer has its operation at instances of its implementation as
own endpoints. Siblings of an own endpoint are the endpoints of other operations that have the name
of its instance and that some data link with readers lists together with it. They are all operations
of that module instance if and only if the data links list no other port of its name there. The
store behind a key declares the operation of the writer and those of the siblings at the instance of
the key, hence under that condition operations of the module instance alone. -/
theorem Builder.Builds.siblings_of_writer {b : Builder} {m : Model} (hb : b.Builds m) {s : Nat}
    {w : DataWritten} (hw : m.dataWritten.get? s = some w) :
    ∃ c ∈ b.project.components, w.scope.component = c.name ∧
      (∀ own others, (own, others) ∈ w.siblings →
        own.id = ⟨.moduleInstance, own.instanceName, w.name, none⟩ ∧
        own.instanceName ∈ c.instancesOf w.scope.moduleImplementation ∧
        (∀ x, HasEndpoint others x ↔ x.instanceName = own.instanceName ∧ x.operation ≠ w.name ∧
          c.WritesTogether own.id x) ∧
        ((∀ x ∈ others, x.kind = .moduleInstance ∧ x.instanceName = own.instanceName) ↔
          c.WritesApart own.id)) ∧
      ∀ (α : Type) (cells : Cells α) (initial : α) (key : String),
        let i := (Text.fieldsOf ':' key).headD ""
        let a : EndpointId := ⟨.moduleInstance, i, w.name, none⟩
        let declared := (VersionedData.forWriter cells initial w key).2.firstWrite.keys
        (∀ v, v ∈ declared ↔ v = w.name ∨ (i ∈ c.instancesOf w.scope.moduleImplementation ∧
          ∃ x : EndpointId, x.instanceName = i ∧ x.operation = v ∧ c.WritesTogether a x)) ∧
        (c.WritesApart a → ∀ v ∈ declared, v ≠ w.name →
          c.WritesTogether a ⟨.moduleInstance, i, v, none⟩) := by
  obtain ⟨c, hc, hof⟩ := hb.exists_isOf hw
  refine ⟨c, hc, hof.operation.component, fun own others hown => ?_, fun α cells initial key => ?_⟩
  · obtain ⟨hid, hinstance⟩ := hof.id_eq hown
    refine ⟨hid, hinstance, fun x => hof.hasEndpoint_iff hown, ?_⟩
    rw [← hof.forall_kind_iff hown]
    refine forall₂_congr fun x hx => and_iff_left ?_
    exact ((hof.hasEndpoint_iff hown).mp ⟨x, hx, rfl⟩).1
  · intro i a declared
    have hdeclared : ∀ v, v ∈ declared ↔ v = w.name ∨
        (i ∈ c.instancesOf w.scope.moduleImplementation ∧ ∃ x : EndpointId, x.instanceName = i ∧
          x.operation = v ∧ c.WritesTogether a x) := fun v => hof.mem_keys_forWriter rfl
    refine ⟨hdeclared, fun hapart v hv hne => ?_⟩
    obtain ⟨-, x, hinstance, rfl, htogether⟩ := ((hdeclared v).mp hv).resolve_left hne
    have hx : x = ⟨.moduleInstance, i, x.operation, none⟩ := by
      rw [← hinstance, ← hapart x htogether hinstance hne, ← htogether.language_eq]
    exact hx ▸ htogether

/-! ## A port with the name of a module instance -/

namespace Declared

/-- A component with a module instance `gauge` of two writers. One data link has both, and a port of
a reference, as writers. -/
def levelComponent (reference : String) : Component where
  name := "A"
  directory := "A"
  uses := []
  moduleTypes := [
    ⟨"Measuring", { Operations.none with dataWritten :=
      [⟨"height", "int32", none, false⟩, ⟨"width", "int32", none, false⟩] }, [], [], []⟩,
    ⟨"Showing", { Operations.none with dataRead := [⟨"shown", "int32", none, false⟩] },
      [], [], []⟩]
  moduleImplementations := [⟨"measuring", "Measuring", "C"⟩, ⟨"showing", "Showing", "C"⟩]
  moduleInstances := [⟨"gauge", "measuring", [], []⟩, ⟨"dial", "showing", [], []⟩]
  triggerInstances := []
  dynamicTriggerInstances := []
  eventLinks := []
  requestLinks := []
  dataLinks := [
    ⟨.ofList [(.moduleInstance, [⟨"gauge", "height", none, none⟩, ⟨"gauge", "width", none, none⟩]),
        (.reference, [⟨reference, "level", none, none⟩])],
      .ofList [(.moduleInstance, [⟨"dial", "shown", none, none⟩])], true⟩]

def levelProject (reference : String) : Project where
  libraries := []
  components := [levelComponent reference]
  deployment := ⟨[⟨"pd", [⟨"a", "gauge"⟩, ⟨"a", "dial"⟩]⟩]⟩
  assembly := ⟨[⟨"a", "A", ∅⟩], []⟩

end Declared

/-- The reference has another name than the module instance. -/
theorem Builder.Builds.siblings_of_writer_levelProject :
    ∃ m, (Builder.new (Declared.levelProject "r")).Builds m ∧
      ∃ w, m.dataWritten.get? 0 = some w ∧ w.siblings ≠ [] ∧
        (∀ own others, (own, others) ∈ w.siblings →
          ∀ x ∈ others, x.kind = .moduleInstance ∧ x.instanceName = own.instanceName) ∧
        let declared :=
          (VersionedData.forWriter Cells.empty "" w "gauge:a:height").2.firstWrite.keys
        "height" ∈ declared ∧ "width" ∈ declared ∧ "level" ∉ declared := by
  refine ⟨_, ⟨_, _, rfl, rfl⟩, _, rfl, by decide, ?_⟩
  obtain ⟨c, hc, -, hsiblings, hdeclared⟩ := siblings_of_writer
    (b := Builder.new (Declared.levelProject "r")) ⟨_, _, rfl, rfl⟩ (s := 0) rfl
  obtain rfl : c = Declared.levelComponent "r" := List.mem_singleton.mp hc
  have hall : ∀ l ∈ (Declared.levelComponent "r").dataLinks,
      ∀ x ∈ l.writers.ids Declared.Endpoint.noLanguage, x.instanceName = "gauge" →
        x.kind = .moduleInstance := by decide
  have hapart : ∀ a : EndpointId, a.instanceName = "gauge" →
      (Declared.levelComponent "r").WritesApart a := by
    rintro a ha x ⟨l, hl, -, -, hx⟩ hinstance -
    exact hall l hl x hx (hinstance.trans ha)
  obtain ⟨hkeys, hown⟩ := hdeclared String Cells.empty "" "gauge:a:height"
  refine ⟨fun own others h => ?_, (hkeys _).mpr (.inl rfl), (hkeys _).mpr (.inr ?_), fun h => ?_⟩
  · obtain ⟨-, hinstance, -, hiff⟩ := hsiblings own others h
    exact hiff.mpr (hapart own.id (List.mem_singleton.mp hinstance))
  · exact ⟨by decide, ⟨.moduleInstance, "gauge", "width", none⟩, rfl, rfl, by decide⟩
  · exact absurd (hown (hapart _ rfl) _ h (by decide)) (by decide)

/-- The reference has the name of the module instance, and its port is a sibling of the writers. -/
theorem Builder.Builds.siblings_levelProject_gauge :
    ∃ m, (Builder.new (Declared.levelProject "gauge")).Builds m ∧
      ∃ w, m.dataWritten.get? 0 = some w ∧
        (∃ own others, (own, others) ∈ w.siblings ∧ own.kind = .moduleInstance ∧
          own.instanceName = "gauge" ∧ ∃ x ∈ others, x.kind = .reference) ∧
        "level" ∈
          (VersionedData.forWriter Cells.empty "" w "gauge:a:height").2.firstWrite.keys := by
  refine ⟨_, ⟨_, _, rfl, rfl⟩, _, rfl, ⟨_, _, List.mem_cons_self, rfl, rfl, ?_⟩, by decide⟩
  decide

end Ecoa
