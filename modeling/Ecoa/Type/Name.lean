import Ecoa.Text.Blank
import Ecoa.Text.Split

/-!
# Type names

A type is named by its library and its name in it, written `library:name`. Libraries nest:
`nav.geo` and `nav__geo` are two spellings of one library, and the second is the one kept.
-/

namespace Ecoa

/-- The library of the basic types. -/
def standardLibrary : String := "ECOA"

/-- The spelling of a library name that is kept. -/
def normalizeLibrary (library : String) : String := Text.replaceIf (· = '.') "__" library

structure TypeName where
  library : String
  name : String
  deriving DecidableEq

namespace TypeName

def inLibrary (library name : String) : TypeName := ⟨normalizeLibrary library, name⟩

def standard (name : String) : TypeName := ⟨standardLibrary, name⟩

def isStandard (t : TypeName) : Bool := t.library = standardLibrary

/-- Read `library:name`; the name is all that follows the first colon. -/
def parse? (text : String) : Option TypeName :=
  match Text.cutFirst ':' (Text.trim text).toList with
  | some (library, name) =>
    if library = [] ∨ name = [] then none else some (inLibrary (.ofList library) (.ofList name))
  | none => none

def text (t : TypeName) : String := t.library ++ ":" ++ t.name

/-- The nested libraries, outermost first. -/
def path (t : TypeName) : List String := (Text.splitDouble '_' t.library.toList).map .ofList

end TypeName

/-- The constant that a value `%name%` stands for. -/
def constantReference? (value : String) : Option String :=
  (Text.between '%' '%' (Text.trim value)).filter (· ≠ "")

end Ecoa
