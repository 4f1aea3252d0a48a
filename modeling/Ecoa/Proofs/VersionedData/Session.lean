import Ecoa.Proofs.VersionedData.FirstWrite

/-!
# Sessions with a store

In a session a client declares writers of one store, takes handles of it, writes through them and
publishes them. A handle is known by the place in which it came, and it is given up when it is
published, also when the publication fails. A session is recorded by its publications: each one that
succeeds, with what the handle held and with the siblings of the writer at that time.
-/

namespace Ecoa

namespace VersionedData

variable {α : Type}

/-- A publication that succeeded. -/
structure Publication (α : Type) where
  writer : String
  /-- The siblings of the writer at that time. -/
  siblings : List String
  /-- The content of the handle at that time. -/
  content : Option α

/-- The publication goes through the writer or through one that has it as a sibling. -/
def Publication.Ends (p : Publication α) (w : String) : Prop := w = p.writer ∨ w ∈ p.siblings

instance (p : Publication α) : DecidablePred p.Ends :=
  fun w => inferInstanceAs (Decidable (w = p.writer ∨ w ∈ p.siblings))

/-- The publication that a call is, if it succeeds. -/
def Call.publication? (s : Cells α × VersionedData) : Call α → Option (Publication α)
  | publish writer handle => (s.2.publish? s.1 writer handle).map fun _ =>
      ⟨writer, s.2.siblingsOf writer, handle.get? s.1⟩
  | _ => none

inductive Action (α : Type) where
  | declare (writer : String)
  | declareTogether (writer : String) (others : List String)
  /-- Take a handle of the store, for reading or for writing. -/
  | take
  /-- Come by a handle of whatever store. -/
  | adopt (handle : Access α)
  | set (handle : Nat) (value : α)
  | modify (handle : Nat) (f : α → α)
  | publish (writer : String) (handle : Nat)

namespace Action

/-- The writers that an action declares. -/
def declared : Action α → List String
  | declare writer => [writer]
  | declareTogether writer others => writer :: others
  | _ => []

/-- The handle that an action writes through, and what becomes of its content. -/
def change? : Action α → Option (Nat × (α → α))
  | set handle value => some (handle, fun _ => value)
  | modify handle f => some (handle, f)
  | _ => none

/-- The action brings no handle from elsewhere. -/
def IsOwn : Action α → Prop
  | adopt _ => False
  | _ => True

instance : DecidablePred (IsOwn (α := α)) := fun x => by
  cases x <;> unfold IsOwn <;> infer_instance

end Action

/-- A store and the handles of its client, in the order in which they came. -/
structure Session (α : Type) where
  cells : Cells α
  store : VersionedData
  /-- A handle that was given up leaves its place empty. -/
  handles : List (Option (Access α))

namespace Session

def start (c : Cells α) (initial : α) (controlled : Bool) : Session α :=
  let (c, d) := new c initial controlled
  ⟨c, d, []⟩

def value? (s : Session α) : Option α := s.store.value? s.cells

/-- A handle that the client still has. -/
def handle? (s : Session α) (h : Nat) : Option (Access α) := s.handles[h]?.join

/-- The content of a handle. -/
def get? (s : Session α) (h : Nat) : Option α := (s.handle? h).bind (·.get? s.cells)

/-- The session after a call to its store. -/
def call (s : Session α) (x : Call α) : Session α :=
  { s with cells := (x.run (s.cells, s.store)).1, store := (x.run (s.cells, s.store)).2 }

/-- The session after something is written through a handle. -/
def write (s : Session α) (h : Nat) (f : Access α → Access α × Cells α) : Session α :=
  match s.handle? h with
  | none => s
  | some a => { s with cells := (f a).2, handles := s.handles.set h (some (f a).1) }

def adopt (s : Session α) (a : Access α) : Session α := { s with handles := s.handles ++ [some a] }

/-- The session after a handle is taken of its store. -/
def take (s : Session α) : Session α := (s.store.access? s.cells).elim s s.adopt

/-- The session after a handle is published, which gives it up. -/
def publish (s : Session α) (writer : String) (h : Nat) : Session α :=
  match s.handle? h with
  | none => s
  | some a => { s.call (.publish writer a) with handles := s.handles.set h none }

def step (s : Session α) : Action α → Session α
  | .declare writer => s.call (.declare writer)
  | .declareTogether writer others => s.call (.declareTogether writer others)
  | .take => s.take
  | .adopt a => s.adopt a
  | .set h value => s.write h (·.set s.cells value)
  | .modify h f => s.write h (·.modify s.cells f)
  | .publish writer h => s.publish writer h

/-- What the client is told when it publishes a handle: the new version, or what is wrong. -/
def answer? (s : Session α) (writer : String) (h : Nat) : Option (Except String UInt64) :=
  (s.handle? h).map fun a =>
    match s.store.publish? s.cells writer a with
    | some t => .ok t.2.version
    | none => .error (unknownWriterMessage writer)

def run (s : Session α) (actions : List (Action α)) : Session α := actions.foldl step s

/-- The call to the store that an action makes. -/
def call? (s : Session α) : Action α → Option (Call α)
  | .declare writer => some (.declare writer)
  | .declareTogether writer others => some (.declareTogether writer others)
  | .publish writer h => (s.handle? h).map (.publish writer)
  | _ => none

/-- The publication that an action is, if it succeeds. -/
def publication? (s : Session α) (x : Action α) : Option (Publication α) :=
  (s.call? x).bind (·.publication? (s.cells, s.store))

/-- The publications among some actions, in order. -/
def publications (s : Session α) : List (Action α) → List (Publication α)
  | [] => []
  | x :: actions => (s.publication? x).toList ++ (s.step x).publications actions

variable {s : Session α} {actions before : List (Action α)} {log : List (Publication α)}

/-- What each action keeps holds after all of them. -/
theorem run_invariant {I : Session α → List (Action α) → List (Publication α) → Prop}
    (hstep : ∀ s before log, ∀ x ∈ actions, I s before log →
      I (s.step x) (before ++ [x]) (log ++ (s.publication? x).toList))
    (h : I s before log) :
    I (s.run actions) (before ++ actions) (log ++ s.publications actions) := by
  induction actions generalizing s before log with
  | nil => simpa only [run, publications, List.foldl_nil, List.append_nil] using h
  | cons x actions ih =>
    rw [List.append_cons, publications, ← List.append_assoc]
    have hrest := fun s before log y hy => hstep s before log y (List.mem_cons_of_mem x hy)
    exact ih hrest (hstep s before log x List.mem_cons_self h)

theorem store_write (s : Session α) (h : Nat) (f : Access α → Access α × Cells α) :
    (s.write h f).store = s.store := by
  unfold write
  split <;> rfl

/-- Only calls reach the store. -/
theorem store_step (s : Session α) (x : Action α) : (s.step x).store =
    (s.call? x).elim s.store fun y => (y.run (s.cells, s.store)).2 := by
  cases x with
  | declare writer => rfl
  | declareTogether writer others => rfl
  | take =>
    show s.take.store = s.store
    unfold take
    cases s.store.access? s.cells <;> rfl
  | adopt a => rfl
  | set h value => exact s.store_write h _
  | modify h f => exact s.store_write h _
  | publish writer h =>
    simp only [step, publish, call?]
    cases s.handle? h <;> rfl

theorem declared_eq (s : Session α) (x : Action α) :
    x.declared = (s.call? x).elim [] Call.declared := by
  cases x with
  | publish writer h =>
    simp only [call?]
    cases s.handle? h <;> rfl
  | _ => rfl

end Session

end VersionedData

end Ecoa
