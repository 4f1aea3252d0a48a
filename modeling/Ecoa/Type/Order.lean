import Ecoa.Type.Registry

/-!
# Emission order of declarations

`TypeOrder.sort` puts every declaration of a library after the declarations of that library to
which it refers. It goes through the declarations in order and places first what each one needs.
`free` holds the positions that are not on the path of needs that led here; a position that is
needed again while it is on the path closes a cycle.
-/

namespace Ecoa

/-- Declarations of one library that are to be ordered. -/
structure TypeOrder where
  registry : TypeRegistry
  library : String
  decls : List TypeDecl

namespace TypeOrder

def new (r : TypeRegistry) (library : String) (decls : List TypeDecl) : TypeOrder :=
  ⟨r, normalizeLibrary library, decls⟩

/-- The last position at which a name is declared. -/
def position? (s : TypeOrder) (name : String) : Option Nat :=
  (s.decls.zipIdx.reverse.find? (·.1.name = name)).map Prod.snd

def context (s : TypeOrder) (d : TypeDecl) : String :=
  d.category.name ++ " " ++ s.library ++ ":" ++ d.name

/-- The position to which a reference leads, if it stays in the library. -/
def target (s : TypeOrder) (d : TypeDecl) (ref : TypeReference) :
    Except ModelError (Option Nat) := do
  let t ← s.registry.resolveFrom ref.name s.library (s.context d)
  return if t.library = s.library then s.position? t.name else none

def nameAt (s : TypeOrder) (i : Nat) : String := (s.decls[i]?.map (·.name)).getD ""

/-- The path from `i` on, closed by `i`. -/
def cycle (s : TypeOrder) (path : List Nat) (i : Nat) : ModelError :=
  .cyclicTypeDependency s.library ((path.dropWhile (· ≠ i) ++ [i]).map s.nameAt)

/-- Place the declaration at `i` after all that it needs. -/
def visit (s : TypeOrder) (free path : List Nat) (i : Nat) (placed : List Nat) :
    Except ModelError (List Nat) :=
  if i ∈ placed then .ok placed
  else if _ : i ∈ free then
    match s.decls[i]? with
    | none => .ok placed
    | some d => do
      let placed ← d.references.foldlM (fun placed ref => do
        match ← s.target d ref with
        | some j => visit s (free.erase i) (path ++ [i]) j placed
        | none => return placed) placed
      return placed ++ [i]
  else .error (s.cycle path i)
termination_by free.length
decreasing_by
  have h : i ∈ free := by assumption
  have := List.length_pos_of_mem h
  rw [List.length_erase_of_mem h]
  omega

def positions (s : TypeOrder) : Except ModelError (List Nat) :=
  let all := List.range s.decls.length
  all.foldlM (fun placed i => s.visit all [] i placed) []

def sort (s : TypeOrder) : Except ModelError (List TypeDecl) :=
  (·.filterMap (s.decls[·]?)) <$> s.positions

end TypeOrder

namespace TypeRegistry

/-- The declarations of a registered library in emission order. -/
def sorted (r : TypeRegistry) (library : String) : Except ModelError (List TypeDecl) :=
  (TypeOrder.new r library ((r.libraryTypes? library).getD [])).sort

end TypeRegistry

end Ecoa
