import Ecoa.Error
import Ecoa.OrderedMap
import Ecoa.Type.Decl

/-!
# Type registries

A registry holds the declarations of every library, in order of registration, and knows the basic
types. A bare name means the first library that declares it, and a basic type only when no
library does; a declaration of a library sees that library first.
-/

namespace Ecoa

/-- The basic types with their categories. -/
def basicTypes : List (String × TypeCategory) :=
  [("boolean8", .simple), ("int8", .simple), ("char8", .simple), ("byte", .simple),
   ("int16", .simple), ("int32", .simple), ("uint8", .simple), ("uint16", .simple),
   ("uint32", .simple), ("float32", .simple), ("double64", .simple), ("int64", .simple),
   ("uint64", .simple), ("return_status", .simple), ("hr_time", .record),
   ("global_time", .record), ("duration", .record), ("log", .record), ("error_id", .simple),
   ("error_code", .simple), ("asset_id", .simple), ("asset_type", .simple),
   ("error_type", .simple), ("recovery_action_type", .simple), ("pinfo_filename", .record),
   ("seek_whence_type", .simple)]

def basicCategory? (name : String) : Option TypeCategory :=
  (basicTypes.find? (·.1 = name)).map Prod.snd

structure TypeRegistry where
  libraries : OrderedMap String (List TypeDecl)

namespace TypeRegistry

def empty : TypeRegistry := ⟨∅⟩

def declares (types : List TypeDecl) (name : String) : Bool := types.any (·.name = name)

/-- The declarations of a library, under either spelling of its name. -/
def libraryTypes? (r : TypeRegistry) (library : String) : Option (List TypeDecl) :=
  r.libraries.get? (normalizeLibrary library)

/-- The declared types before the first that is declared already, with that one. -/
def addTypes (library : String) (present : List TypeDecl) :
    List TypeDecl → List TypeDecl × Option ModelError
  | [] => (present, none)
  | d :: ds =>
    if (library = standardLibrary ∧ (basicCategory? d.name).isSome) ∨ declares present d.name then
      (present, some (.duplicateType (TypeName.inLibrary library d.name).text))
    else addTypes library (present ++ [d]) ds

/-- Add declarations to a library. Those before one that is declared already stay. -/
def register (r : TypeRegistry) (library : String) (types : List TypeDecl) :
    TypeRegistry × Option ModelError :=
  let key := normalizeLibrary library
  let (present, error) := addTypes key ((r.libraries.get? key).getD []) types
  (⟨r.libraries.insert key present⟩, error)

def declaration? (r : TypeRegistry) (t : TypeName) : Option TypeDecl :=
  (r.libraries.get? t.library).bind fun types => types.find? (·.name = t.name)

def classify? (r : TypeRegistry) (t : TypeName) : Option TypeCategory :=
  match r.declaration? t with
  | some d => some d.category
  | none => if t.isStandard then basicCategory? t.name else none

def contains (r : TypeRegistry) (t : TypeName) : Bool := (r.classify? t).isSome

/-- The type that a bare name means. -/
def lookupBare (r : TypeRegistry) (name : String) : Option TypeName :=
  match r.libraries.toList.find? fun e => declares e.2 name with
  | some (library, _) => some (.inLibrary library name)
  | none => if (basicCategory? name).isSome then some (.standard name) else none

/-- The type that a name means; a qualified name means itself, when there is such a type. -/
def lookup (r : TypeRegistry) (name : String) : Option TypeName :=
  let bare := Text.trim name
  match TypeName.parse? bare with
  | some t => if r.contains t then some t else none
  | none => r.lookupBare bare

def resolve (r : TypeRegistry) (name context : String) : Except ModelError TypeName :=
  match r.lookup name with
  | some t => .ok t
  | none => .error (.unresolvedType name context)

/-- The library declares the bare name itself. -/
def ownsBare (r : TypeRegistry) (library bare : String) : Bool :=
  ':' ∉ bare.toList ∧ ((r.libraryTypes? library).any (declares · bare)) = true

/-- The type that a name means inside a library. -/
def resolveFrom (r : TypeRegistry) (name library context : String) : Except ModelError TypeName :=
  let bare := Text.trim name
  if r.ownsBare library bare then .ok (.inLibrary library bare) else r.resolve name context

def size (r : TypeRegistry) : Nat := r.libraries.values.flatten.length

/-- Follow a constant to its declared type, at most `steps` times. -/
def follow (r : TypeRegistry) (start : TypeName) (context : String) :
    Nat → TypeName → Except ModelError TypeName
  | 0, t => .error (.cyclicTypeDependency start.library [start.name, t.name])
  | steps + 1, t =>
    match r.declaration? t with
    | some (.constant _ type _) => do
      r.follow start context steps (← r.resolveFrom type t.library context)
    | _ => .ok t

/-- The type behind a chain of constants. A chain with more links than the registry has types
comes back to where it was. -/
def underlying (r : TypeRegistry) (t : TypeName) (context : String) : Except ModelError TypeName :=
  r.follow t context (r.size + 1) t

/-- The declared types of a library, a name and a set of categories; `none` leaves it open. -/
def findAll (r : TypeRegistry) (library name : Option String) (categories : CategorySet) :
    List (TypeName × TypeDecl) :=
  let found := r.libraries.toList.filter fun e => library.all (normalizeLibrary · = e.1)
  (found.flatMap fun e => e.2.map fun d => (TypeName.inLibrary e.1 d.name, d)).filter fun p =>
    name.all (· = p.2.name) && categories.contains p.2.category

def libraryNames (r : TypeRegistry) : List String := r.libraries.keys

end TypeRegistry

end Ecoa
