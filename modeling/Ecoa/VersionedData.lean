import Ecoa.Entity.Basic

/-!
# Versioned data

A store holds the current value of one written data operation in a cell and hands out handles. In
a controlled store a handle has a copy of its own, which is published back; in any other store it
is the cell itself. A writer is in its first write until something is published through it or
through a writer of the same storage.
-/

namespace Ecoa

/-- A version is read as the number that it is. -/
instance instCoeVersion : Coe UInt64 Nat := ⟨UInt64.toNat⟩

/-- The cells of all stores. A cell is known by its number and is never given up. -/
structure Cells (α : Type) where
  contents : List α

namespace Cells

variable {α : Type}

def empty : Cells α := ⟨[]⟩

/-- A new cell, with its number. -/
def allocate (c : Cells α) (value : α) : Cells α × Nat :=
  (⟨c.contents ++ [value]⟩, c.contents.length)

def get? (c : Cells α) (cell : Nat) : Option α := c.contents[cell]?

def set (c : Cells α) (cell : Nat) (value : α) : Cells α := ⟨c.contents.set cell value⟩

end Cells

inductive Access (α : Type) where
  | owned (value : α)
  | shared (cell : Nat)

namespace Access

variable {α : Type}

def get? (a : Access α) (c : Cells α) : Option α :=
  match a with
  | .owned value => some value
  | .shared cell => c.get? cell

/-- Write through a handle: into its own copy, or into the cell. -/
def set (a : Access α) (c : Cells α) (value : α) : Access α × Cells α :=
  match a with
  | .owned _ => (.owned value, c)
  | .shared cell => (a, c.set cell value)

def modify (a : Access α) (c : Cells α) (f : α → α) : Access α × Cells α :=
  match a.get? c with
  | some value => a.set c (f value)
  | none => (a, c)

def isShared : Access α → Bool
  | .owned _ => false
  | .shared _ => true

end Access

structure VersionedData where
  cell : Nat
  controlled : Bool
  version : UInt64
  /-- The declared writers, and whether each is still in its first write. -/
  firstWrite : OrderedMap String Bool
  /-- For each writer, the other writers of its storage. -/
  siblings : OrderedMap String (List String)

namespace VersionedData

variable {α : Type}

def new (c : Cells α) (initial : α) (controlled : Bool) : Cells α × VersionedData :=
  let (c, cell) := c.allocate initial
  (c, ⟨cell, controlled, 0, ∅, ∅⟩)

/-- Declare a writer; one that is declared keeps its state. -/
def withWriter (d : VersionedData) (writer : String) : VersionedData :=
  { d with firstWrite := d.firstWrite.alter writer (·.getD true) }

def addSibling (d : VersionedData) (writer other : String) : VersionedData :=
  { d with siblings := d.siblings.alter writer fun found =>
      let writers := found.getD []
      if other ∈ writers then writers else writers ++ [other] }

/-- Declare a writer together with others of the same storage. -/
def withSiblings (d : VersionedData) (writer : String) (others : List String) : VersionedData :=
  let join (d : VersionedData) (other : String) :=
    ((d.withWriter other).addSibling writer other).addSibling other writer
  others.foldl join (d.withWriter writer)

/-- The store behind one key of a writer. -/
def forWriter (c : Cells α) (initial : α) (writer : DataWritten) (key : String) :
    Cells α × VersionedData :=
  let controlled := (writer.controlled.get? key).getD true
  let instanceName := (Text.fieldsOf ':' key).headD ""
  let others := (writer.siblings.filter (·.1.instanceName = instanceName)).flatMap fun e =>
    e.2.map (·.operation)
  let (c, d) := new c initial controlled
  (c, d.withSiblings writer.name others)

def isFirstWrite? (d : VersionedData) (writer : String) : Option Bool := d.firstWrite.get? writer

def value? (d : VersionedData) (c : Cells α) : Option α := c.get? d.cell

/-- A handle for reading or writing. -/
def access? (d : VersionedData) (c : Cells α) : Option (Access α) :=
  if d.controlled then (d.value? c).map .owned else some (.shared d.cell)

/-- The handle is the cell of the store. -/
def isAliasedBy (d : VersionedData) : Access α → Bool
  | .owned _ => false
  | .shared cell => cell = d.cell

/-- The writer and all writers of its storage are past their first write. -/
def clearFirstWrite (d : VersionedData) (writer : String) : VersionedData :=
  let writers := writer :: (d.siblings.get? writer).getD []
  { d with firstWrite := writers.foldl (fun flags w => flags.insert w false) d.firstWrite }

/-- Publish a handle through a writer: a copy goes into the cell, and the version goes up. A writer
that is not declared publishes nothing. -/
def publish? (d : VersionedData) (c : Cells α) (writer : String) (a : Access α) :
    Option (Cells α × VersionedData) :=
  if d.firstWrite.contains writer then
    let c := match a with
      | .owned value => c.set d.cell value
      | .shared _ => c
    some (c, { d with version := d.version + 1 }.clearFirstWrite writer)
  else none

/-- The message for a writer that is not declared. -/
def unknownWriterMessage (writer : String) : String := "unknown write port '" ++ writer ++ "'"

end VersionedData

end Ecoa
