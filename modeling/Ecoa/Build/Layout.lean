import Ecoa.Text.Split

/-!
# Project layouts

Where the files of a project lie. Paths are texts: joining puts a slash between two paths unless
the left one is empty or ends in a slash, and an absolute right path stands alone.
-/

namespace Ecoa

namespace Path

def join (base path : String) : String :=
  if path.toList.head? = some '/' then path
  else if base = "" ∨ base.toList.getLast? = some '/' then base ++ path
  else base ++ "/" ++ path

/-- Remove slashes and single dots from the end, as far as they name nothing further. -/
def dropTrailing : List String → List String
  | [] => []
  | s :: rest => if s = "" ∨ s = "." then dropTrailing rest else s :: rest

/-- The directory that holds what a path names; empty when the path does not tell. -/
def parent (path : String) : String :=
  let absolute := path.toList.head? = some '/'
  let pieces := Text.fieldsOf '/' path
  let (first, rest) := match pieces with
    | "." :: rest => (["."], rest)
    | rest => ([], rest)
  match dropTrailing rest.reverse with
  | [] => ""
  | _ :: before =>
    let kept := first ++ (dropTrailing before).reverse
    if kept = [] ∧ absolute then "/"
    else Text.joinWith "/" kept

/-- The path goes only through directories that are always there. -/
def isDirectory (path : String) : Bool :=
  path ≠ "" && (Text.fieldsOf '/' path).all fun s => s = "" || s = "." || s = ".."

end Path

structure Layout where
  projectDir : String
  integrationDir : String

namespace Layout

/-- The file of a value of persistent information: private values belong to the component, public
ones to the integration. Quotes around the value are no part of the name. -/
def pinfoPath (l : Layout) (componentDir value : String) (isPrivate : Bool) : String :=
  let base := Path.join l.projectDir (if isPrivate then componentDir else l.integrationDir)
  Path.join (Path.join base "Pinfo") (Text.remove (· = '"') value)

end Layout

end Ecoa
