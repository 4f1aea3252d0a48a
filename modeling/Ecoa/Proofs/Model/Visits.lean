import Mathlib.Algebra.BigOperators.Group.List.Basic
import Mathlib.Algebra.GroupWithZero.Nat
import Ecoa.Model.Visitor
import Ecoa.Model.Walk
import Ecoa.Proofs.Linking.Steps

/-!
# The stops of a walk

A walk stops at each stored entity once, kind by kind and by ascending number
(`Model.mem_visits_iff`, `Model.pairwise_visits`), and a visitor that goes through the declarations
of a library does the same as one that is called at the stops of the walk (`Visitor.walkModel_eq`).
Linking changes entities but not how many there are.
-/

namespace Ecoa

/-- The first id comes before the other in a walk. -/
def EntityId.Precedes (a b : EntityId) : Prop :=
  a.kind.number < b.kind.number ∨ a.kind = b.kind ∧ a.index < b.index

/-- An entity is of one kind only. -/
theorem Entry.sum_length_filterMap_of? (xs : List Entry) :
    (EntityKind.all.map fun kind => (xs.filterMap (of? kind)).length).sum = xs.length := by
  have hone : ∀ k : EntityKind,
      (EntityKind.all.map fun kind => if k = kind then 1 else 0).sum = 1 := by
    intro k
    cases k <;> rfl
  induction xs with
  | nil => rfl
  | cons x xs ih =>
    have hcons : ∀ kind, ((x :: xs).filterMap (of? kind)).length =
        (xs.filterMap (of? kind)).length + if x.kind = kind then 1 else 0 := by
      intro kind
      by_cases hkind : x.kind = kind
      · rw [List.filterMap_cons, of?, dif_pos hkind, if_pos hkind, List.length_cons]
      · rw [List.filterMap_cons, of?, dif_neg hkind, if_neg hkind, Nat.add_zero]
    simp only [hcons, List.sum_map_add, hone, ih, List.length_cons]

namespace Model

def Stop.entity? : Stop → Option ((id : EntityId) × Entity id.kind)
  | .entity id e => some ⟨id, e⟩
  | _ => none

def Stop.type? : Stop → Option (String × TypeDecl)
  | .type name d => some (name, d)
  | _ => none

/-- The entities at which a walk stops. -/
def visits (m : Model) : List ((id : EntityId) × Entity id.kind) := m.walk.filterMap Stop.entity?

/-- The declarations at which a walk stops, each with its library. -/
def visitedTypes (m : Model) : List (String × TypeDecl) := m.walk.filterMap Stop.type?

variable (m : Model)

theorem filterMap_walk {α : Type} (f : Stop → Option α) : m.walk.filterMap f =
    (m.sortedTypes.toList.flatMap fun e => (walkLibrary e.1 e.2).filterMap f) ++
      m.uses.toList.filterMap (fun e => f (.uses e.1 e.2)) ++
      m.modules.values.filterMap (fun scope => f (.log scope)) ++
      m.modules.values.filterMap (fun scope => f (.time scope)) ++
      EntityKind.all.flatMap fun kind => (m.walkStore kind).filterMap f := by
  simp only [walk, List.filterMap_append, List.filterMap_flatMap, List.filterMap_map]
  rfl

theorem visits_eq : m.visits = EntityKind.all.flatMap fun kind =>
    (m.store kind).numbered.map fun e => ⟨⟨kind, e.1⟩, e.2⟩ := by
  have hlibrary : ∀ library types, (walkLibrary library types).filterMap Stop.entity? = [] := by
    intro library types
    simp [walkLibrary, Stop.entity?]
  simp [visits, filterMap_walk, hlibrary, Stop.entity?, walkStore, List.filterMap_map,
    Function.comp_def]

theorem visitedTypes_eq : m.visitedTypes =
    m.sortedTypes.toList.flatMap fun e => e.2.map fun d => (e.1, d) := by
  have hlibrary : ∀ library types,
      (walkLibrary library types).filterMap Stop.type? = types.map fun d => (library, d) := by
    intro library types
    rw [walkLibrary, List.filterMap_cons_none rfl, List.filterMap_map]
    exact congrFun List.filterMap_eq_map types
  simp [visitedTypes, filterMap_walk, hlibrary, Stop.type?, walkStore, List.filterMap_map,
    Function.comp_def]

/-- The walk stops at what is stored, under its own id. -/
theorem mem_visits_iff {id : EntityId} {e : Entity id.kind} :
    ⟨id, e⟩ ∈ m.visits ↔ m.entity? id = some e := by
  obtain ⟨kind, i⟩ := id
  have hkinds : kind ∈ EntityKind.all := by cases kind <;> decide
  rw [visits_eq, List.mem_flatMap, entity?, ← Store.mem_numbered]
  constructor
  · rintro ⟨k, -, h⟩
    obtain ⟨⟨j, e'⟩, he', ⟨⟩⟩ := List.mem_map.mp h
    exact he'
  · exact fun h => ⟨kind, hkinds, List.mem_map.mpr ⟨(i, e), h, rfl⟩⟩

/-- Kind by kind, and by ascending number within a kind. -/
theorem pairwise_visits : m.visits.Pairwise fun x y => x.1.Precedes y.1 := by
  have hkinds : EntityKind.all.Pairwise fun a b => a.number < b.number := by decide
  rw [visits_eq, List.pairwise_flatMap]
  constructor
  · intro kind _
    rw [List.pairwise_map]
    have hnumbers : ((m.store kind).numbered.map Prod.fst).Pairwise (· < ·) := by
      rw [Store.map_fst_numbered]
      exact List.pairwise_lt_range
    exact (List.pairwise_map.mp hnumbers).imp fun h => .inr ⟨rfl, h⟩
  · refine hkinds.imp fun {a b} hlt x hx y hy => .inl ?_
    obtain ⟨_, -, rfl⟩ := List.mem_map.mp hx
    obtain ⟨_, -, rfl⟩ := List.mem_map.mp hy
    exact hlt

theorem length_visits : m.visits.length =
    (EntityKind.all.map fun kind => (m.store kind).entries.toList.length).sum := by
  rw [visits_eq, List.length_flatMap]
  simp [Store.numbered]

/-- Linking neither adds entities nor takes any away. -/
theorem length_entries_link (kind : EntityKind) :
    (m.link.1.store kind).entries.toList.length = (m.store kind).entries.toList.length := by
  rw [link_fst_eq, linkEvents_fst]
  cases kind with
  | external | dataRead | dataWritten =>
    simp [store, stampedReaders, stampedWriters, Store.mapWithIndex]
  | _ => rfl

/-- There is a stop for each entity that the components of the project are built into. -/
theorem IsFilled.length_visits_link {p : Declared.Project} {layout : Layout}
    (h : m.IsFilled p layout) : m.link.1.visits.length =
      (p.components.flatMap (·.built m.registry m.deployment layout)).length := by
  rw [length_visits, ← Entry.sum_length_filterMap_of?]
  simp only [length_entries_link, h.entries]

end Model

/-! ## Visitors -/

namespace Visitor

variable {σ : Type} (v : Visitor σ)

/-- What a visitor does at a stop. It comes to a library by coming to its declarations. -/
def visit : Model.Stop → σ → σ
  | .library .. => id
  | .type name d => v.typeDecl name d
  | .uses component libraries => v.uses component libraries
  | .log scope => v.log scope
  | .time scope => v.time scope
  | .entity id e => v.accept id.kind e id

/-- A visitor that has no way of its own with libraries is called at each stop, in order. -/
theorem walkModel_eq (hlibrary : v.library = v.walkLibrary) (m : Model) (s : σ) :
    v.walkModel m s = m.walk.foldl (fun s stop => v.visit stop s) s := by
  have hstops : ∀ library types s,
      (Model.walkLibrary library types).foldl (fun s stop => v.visit stop s) s =
        v.library library types s := by
    intro library types s
    rw [Model.walkLibrary, List.foldl_cons, List.foldl_map, hlibrary]
    rfl
  simp only [Model.walk, List.foldl_append, List.foldl_flatMap, List.foldl_map, hstops,
    EntityKind.all, List.foldl_cons, List.foldl_nil, Model.walkStore]
  rfl

/-- A call of the method for a kind. -/
abbrev Call := (kind : EntityKind) × Entity kind × EntityId

def record (kind : EntityKind) (e : Entity kind) (id : EntityId) (calls : List Call) : List Call :=
  calls ++ [⟨kind, e, id⟩]

/-- A visitor whose methods for entities record that they are called. -/
def recorder : Visitor (List Call) where
  library _ types calls := types.foldl (fun calls _ => calls) calls
  typeDecl _ _ calls := calls
  uses _ _ calls := calls
  log _ calls := calls
  time _ calls := calls
  eventSend := record .eventSend
  eventReceived := record .eventReceived
  requestSend := record .requestSend
  requestReceived := record .requestReceived
  dataRead := record .dataRead
  dataWritten := record .dataWritten
  property := record .property
  pinfo := record .pinfo
  external := record .external
  trigger := record .trigger
  dynamicTriggerSend := record .dynamicTriggerSend
  dynamicTriggerReceived := record .dynamicTriggerReceived

theorem accept_recorder (kind : EntityKind) : recorder.accept kind = record kind := by
  cases kind <;> rfl

/-- Each entity is visited by the method for its own kind. -/
theorem walkModel_recorder (m : Model) :
    recorder.walkModel m [] = m.visits.map fun x => ⟨x.1.kind, x.2, x.1⟩ := by
  have hcalls : ∀ (stops : List Model.Stop) (calls : List Call),
      stops.foldl (fun calls stop => recorder.visit stop calls) calls =
        calls ++ (stops.filterMap Model.Stop.entity?).map fun x => ⟨x.1.kind, x.2, x.1⟩ := by
    intro stops
    induction stops with
    | nil => exact fun calls => (List.append_nil calls).symm
    | cons stop stops ih =>
      intro calls
      rw [List.foldl_cons, ih]
      cases stop with
      | entity id e =>
        rw [visit, accept_recorder, record, List.append_assoc]
        rfl
      | _ => rfl
  rw [walkModel_eq recorder rfl, hcalls]
  rfl

end Visitor

end Ecoa
