/-!
# Entity stores

A store numbers its items in order of insertion and files each under a group. Items are never
taken out, so a number always means the same item.
-/

namespace Ecoa

structure Store (α : Type) where
  entries : Array (String × α)

namespace Store

variable {α : Type}

def empty : Store α := ⟨#[]⟩

def size (s : Store α) : Nat := s.entries.size

def isEmpty (s : Store α) : Bool := s.entries.isEmpty

/-- Add an item; its number is the size before. -/
def insert (s : Store α) (group : String) (item : α) : Store α := ⟨s.entries.push (group, item)⟩

def get? (s : Store α) (i : Nat) : Option α := s.entries[i]?.map Prod.snd

/-- Change the item at a number, if there is one. -/
def modify (s : Store α) (i : Nat) (f : α → α) : Store α :=
  ⟨s.entries.modify i fun e => (e.1, f e.2)⟩

/-- Change every item by its number. -/
def mapWithIndex (s : Store α) (f : Nat → α → α) : Store α :=
  ⟨s.entries.mapIdx fun i e => (e.1, f i e.2)⟩

def items (s : Store α) : List α := s.entries.toList.map Prod.snd

/-- The items with their numbers. -/
def numbered (s : Store α) : List (Nat × α) :=
  s.entries.toList.zipIdx.map fun p => (p.2, p.1.2)

/-- The items of a group, with their numbers. -/
def group (s : Store α) (key : String) : List (Nat × α) :=
  (s.entries.toList.zipIdx.filter (·.1.1 = key)).map fun p => (p.2, p.1.2)

/-- The groups in order of their first item, each with its numbers. -/
def groups (s : Store α) : List (String × List Nat) :=
  (s.entries.toList.map Prod.fst).eraseDups.map fun key => (key, (s.group key).map Prod.fst)

end Store

end Ecoa
