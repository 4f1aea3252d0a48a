import Ecoa.Text.Split

/-!
# Literals of constants

The value of a constant is written as a character when it is one that is no digit, and else with
the suffix of its base type.
-/

namespace Ecoa

/-- The suffix of a literal; the base type may be qualified. -/
def literalSuffix (baseType : String) : String :=
  match (Text.fieldsOf ':' baseType).getLastD baseType with
  | "int32" => "L"
  | "uint32" => "UL"
  | "int64" => "LL"
  | "uint64" => "LLU"
  | "float32" => "F"
  | _ => ""

def constantLiteral (value baseType : String) : String :=
  match value.toList with
  | [c] => if c.isDigit then value ++ literalSuffix baseType else "'" ++ value ++ "'"
  | _ => value ++ literalSuffix baseType

end Ecoa
