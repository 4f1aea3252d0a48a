import Ecoa.Json.Basic

/-!
# Decoding JSON values

A decoder makes a datum of a value. Where a text has several faults the first one counts, so
the decoder of a record keeps the place of each fault: a member that does not fit fails at its
own place, the place where the text goes wrong comes after what was read, and a missing member
is found last. A record may also be written as an array of its members in order.
-/

namespace Ecoa.Json

/-- Why a text gives no datum: it is not JSON, or it is and has not the form asked for. -/
inductive Fault where
  | malformed
  | mismatch
  deriving DecidableEq

abbrev Decoder (α : Type) := Json → Except Fault α

/-- The fault of a value that has not the form asked for. -/
def wrong : Json → Fault
  | .cut | .unreadable => .malformed
  | _ => .mismatch

namespace Decoder

def text : Decoder String
  | .text s => .ok s
  | v => .error (wrong v)

def bool : Decoder Bool
  | .bool b => .ok b
  | v => .error (wrong v)

/-- A natural number below `limit`. -/
def natBelow (limit : Nat) : Decoder Nat
  | .int (.ofNat n) => if n < limit then .ok n else .error .mismatch
  | v => .error (wrong v)

def option {α : Type} (d : Decoder α) : Decoder (Option α)
  | .null => .ok none
  | v => some <$> d v

def list {α : Type} (d : Decoder α) : Decoder (List α)
  | .array items closed => do
    let found ← items.mapM d
    if closed then .ok found else .error .malformed
  | v => .error (wrong v)

/-- The entries of an object, its keys read by `key`. -/
def entries {κ ν : Type} (key : String → Option κ) (d : Decoder ν) : Decoder (List (κ × ν))
  | .object members closed => do
    let found ← members.mapM fun m =>
      match key m.1 with
      | some k => (k, ·) <$> d m.2
      | none => .error .mismatch
    if closed then .ok found else .error .malformed
  | v => .error (wrong v)

end Decoder

/-- A fault and its place among the members of a record. -/
abbrev Located := Nat × Fault

/-- The members of a record, by name, and what is made of them. -/
structure Fields (α : Type) where
  names : List String
  read : List (String × Json) → Except Located α

namespace Fields

variable {α β : Type}

/-- The first of two faults. -/
def first (e f : Located) : Located := if f.1 < e.1 then f else e

def map (f : α → β) (x : Fields α) : Fields β := ⟨x.names, fun ms => f <$> x.read ms⟩

def seq (f : Fields (α → β)) (x : Fields α) : Fields β where
  names := f.names ++ x.names
  read ms :=
    match f.read ms, x.read ms with
    | .ok g, .ok a => .ok (g a)
    | .ok _, .error e => .error e
    | .error e, .ok _ => .error e
    | .error e, .error e' => .error (first e e')

instance : Functor Fields where
  map := map

instance : Seq Fields where
  seq f x := seq f (x ())

/-- The first member of a name, with its place. -/
def find (name : String) : Nat → List (String × Json) → Option (Nat × Json)
  | _, [] => none
  | i, (k, v) :: ms => if k = name then some (i, v) else find name (i + 1) ms

def required (name : String) (d : Decoder α) : Fields α where
  names := [name]
  read ms :=
    match find name 0 ms with
    | some (i, v) => (d v).mapError (i, ·)
    | none => .error (ms.length + 1, .mismatch)

/-- A member that may be missing. -/
def defaulted (name : String) (d : Decoder α) (value : α) : Fields α where
  names := [name]
  read ms :=
    match find name 0 ms with
    | some (i, v) => (d v).mapError (i, ·)
    | none => .ok value

/-- A member that may be missing or `null`. -/
def optional (name : String) (d : Decoder α) : Fields (Option α) := defaulted name d.option none

/-- The first member whose name comes again or that cannot be passed over. -/
def misplaced (names : List String) : Nat → List String → List (String × Json) → Option Located
  | _, _, [] => none
  | i, seen, (k, v) :: ms =>
    if k ∈ names then
      if k ∈ seen then some (i, .mismatch) else misplaced names (i + 1) (k :: seen) ms
    else if v.skippable then misplaced names (i + 1) seen ms
    else some (i, .malformed)

def settle (found : Except Located α) (other : Option Located) : Except Fault α :=
  match found, other with
  | .ok a, none => .ok a
  | .ok _, some e => .error e.2
  | .error e, none => .error e.2
  | .error e, some e' => .error (first e e').2

def decoder (f : Fields α) : Decoder α
  | .object ms closed =>
    let unclosed := if closed then none else some (ms.length, .malformed)
    settle (f.read ms) ((misplaced f.names 0 [] ms).or unclosed)
  | .array items closed =>
    let surplus := if closed && items.length ≤ f.names.length then none
      else some (items.length, .malformed)
    settle (f.read (f.names.zip items)) surplus
  | v => .error (wrong v)

end Fields

end Ecoa.Json
