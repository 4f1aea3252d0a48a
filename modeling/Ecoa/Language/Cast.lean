import Ecoa.Language.Basic
import Ecoa.Type.Category

/-!
# Casts between languages

An argument that goes from a module in one language to a module in the other is cast by the
category of its type. Within one language nothing is cast.
-/

namespace Ecoa

inductive ArgumentCast where
  | none
  | enumToCpp
  | enumToC
  | valueToCpp
  | valueToC
  | complexToCpp
  | complexToC
  deriving DecidableEq

namespace ArgumentCast

def between (source target : Language) (category : TypeCategory) : ArgumentCast :=
  match source, target with
  | .c, .c | .cpp, .cpp => .none
  | .c, .cpp =>
    if category = .enum then .enumToCpp
    else if category.isComplex then .complexToCpp
    else .valueToCpp
  | .cpp, .c =>
    if category = .enum then .enumToC
    else if category.isComplex then .complexToC
    else .valueToC

def apply (cast : ArgumentCast) (argument : String) (t : TypeName) : String :=
  let c := Language.c.qualify t
  let cpp := Language.cpp.qualify t
  match cast with
  | .none => argument
  | .enumToCpp => cpp ++ "((" ++ cpp ++ "::EnumValues) " ++ argument ++ ")"
  | .enumToC => "(" ++ c ++ ") " ++ argument
  | .valueToCpp => "(" ++ cpp ++ ") " ++ argument
  | .valueToC => "(" ++ c ++ ") " ++ argument
  | .complexToCpp => "(" ++ cpp ++ "&)* " ++ argument
  | .complexToC => "(" ++ c ++ "*)& " ++ argument

end ArgumentCast

end Ecoa
