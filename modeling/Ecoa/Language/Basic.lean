import Ecoa.Type.Name

/-!
# Implementation languages

Modules are written in C or in C++. The languages differ in what they put between the parts of a
qualified name.
-/

namespace Ecoa

inductive Language where
  | c
  | cpp
  deriving DecidableEq

namespace Language

def name : Language → String
  | .c => "c"
  | .cpp => "c++"

/-- Read a language name, in upper or lower case and with blanks around it. -/
def parse? (text : String) : Option Language :=
  let word := Text.lowerAscii (Text.trim text)
  if word = "c" then some .c else if word = "c++" then some .cpp else none

def separator : Language → String
  | .c => "__"
  | .cpp => "::"

/-- A type name as it is written in generated code. -/
def qualify (l : Language) (t : TypeName) : String :=
  Text.joinWith l.separator t.path ++ l.separator ++ t.name

def enumLabel (l : Language) (t : TypeName) (label : String) : String :=
  match l with
  | .c => l.qualify t ++ "_" ++ label
  | .cpp => l.qualify t ++ "::" ++ label

/-- A reference to a constant as it is written in generated code. -/
def constantReference (l : Language) (reference : String) : String :=
  Text.replaceIf (fun c => c = ':' || c = '.') l.separator reference

end Language

end Ecoa
