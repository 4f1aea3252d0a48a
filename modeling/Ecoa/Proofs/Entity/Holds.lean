import Ecoa.Component.Entities
import Ecoa.Proofs.Entity.Store

/-!
# Entities that a model holds

A model holds an entity under a group when the store of its kind lists it there. Adding entities
makes the model hold these too; its types, its deployment and its bindings stay.
-/

namespace Ecoa

/-- The entity with its group, when it is of the kind. -/
def Entry.of? (kind : EntityKind) (x : Entry) : Option (String × Entity kind) :=
  if h : x.kind = kind then some (x.group, h ▸ x.entity) else none

theorem Entry.of?_eq_some_iff {kind : EntityKind} {x : Entry} {e : String × Entity kind} :
    x.of? kind = some e ↔ x = ⟨kind, e.1, e.2⟩ := by
  obtain ⟨k, g, e'⟩ := x
  obtain ⟨g', e⟩ := e
  unfold of?
  split
  · next h =>
    cases h
    simp
  · next h => exact iff_of_false nofun fun heq => h (congrArg Entry.kind heq)

namespace Model

/-- The model has this entity under this group. -/
def Holds (m : Model) (x : Entry) : Prop := (x.group, x.entity) ∈ (m.store x.kind).entries

/-- Only entities, and what is recorded of types and modules, have changed. -/
structure Extends (m m' : Model) : Prop where
  registry : m'.registry = m.registry
  deployment : m'.deployment = m.deployment
  events : m'.events = m.events
  requests : m'.requests = m.requests
  data : m'.data = m.data

theorem Extends.refl (m : Model) : m.Extends m := ⟨rfl, rfl, rfl, rfl, rfl⟩

theorem Extends.trans {m m' m'' : Model} (h : m.Extends m') (h' : m'.Extends m'') :
    m.Extends m'' :=
  ⟨h'.registry.trans h.registry, h'.deployment.trans h.deployment, h'.events.trans h.events,
    h'.requests.trans h.requests, h'.data.trans h.data⟩

theorem entries_empty (r : TypeRegistry) (d : Deployment) (kind : EntityKind) :
    ((Model.empty r d).store kind).entries.toList = [] := by
  cases kind <;> rfl

theorem extends_insert (m : Model) (x : Entry) : m.Extends (m.insert x) := by
  obtain ⟨kind, g, e⟩ := x
  cases kind <;> exact ⟨rfl, rfl, rfl, rfl, rfl⟩

theorem entries_insert (m : Model) (x : Entry) (kind : EntityKind) :
    ((m.insert x).store kind).entries.toList =
      (m.store kind).entries.toList ++ (x.of? kind).toList := by
  rw [store_insert, Entry.of?]
  split
  · rw [Store.insert, Array.toList_push, Option.toList_some]
  · rw [Option.toList_none, List.append_nil]

theorem extends_insertAll (m : Model) (xs : List Entry) : m.Extends (m.insertAll xs) := by
  unfold insertAll
  induction xs generalizing m with
  | nil => exact .refl m
  | cons x xs ih => exact (m.extends_insert x).trans (ih (m.insert x))

/-- Entities come after those that are there, each kind in the given order. -/
theorem entries_insertAll (m : Model) (xs : List Entry) (kind : EntityKind) :
    ((m.insertAll xs).store kind).entries.toList =
      (m.store kind).entries.toList ++ xs.filterMap (Entry.of? kind) := by
  unfold insertAll
  induction xs generalizing m with
  | nil => rw [List.foldl_nil, List.filterMap_nil, List.append_nil]
  | cons x xs ih =>
    rw [List.foldl_cons, ih, entries_insert, List.append_assoc, List.filterMap_cons]
    cases x.of? kind <;> rfl

theorem extends_addModules (m : Model) (c : Declared.Component) (sites : List ModuleSite) :
    m.Extends (m.addModules c sites) := ⟨rfl, rfl, rfl, rfl, rfl⟩

theorem store_addModules (m : Model) (c : Declared.Component) (sites : List ModuleSite)
    (kind : EntityKind) : (m.addModules c sites).store kind = m.store kind := by
  cases kind <;> rfl

end Model

end Ecoa
