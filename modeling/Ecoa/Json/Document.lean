import Ecoa.Json.Token

/-!
# JSON documents

`Document.read` makes a value of a text. The reader keeps a stack of the arrays and objects that
are open and takes one token at a time. At the first token that does not fit it gives up: what is
open stays unclosed around what was read.
-/

namespace Ecoa.Json

/-- An open array or object; what it holds is kept newest first. -/
inductive Frame where
  | array (items : List Json)
  | object (members : List (String × Json)) (key : String)

structure Document where
  value : Json
  /-- Nothing but space follows the value. -/
  ended : Bool
  deriving Inhabited

namespace Document

/-- What the reader waits for. -/
inductive State where
  | value (stack : List Frame)
  | firstItem (stack : List Frame)
  | firstKey (stack : List Frame)
  | key (stack : List Frame) (members : List (String × Json))
  | colon (stack : List Frame) (members : List (String × Json)) (key : String)
  | after (stack : List Frame) (v : Json)
  | over (result : Document)

/-- The value around a place where the text goes wrong. -/
def abandon : List Frame → Option Json → Json
  | [], v => v.getD .cut
  | .array items :: stack, v => abandon stack (some (.array (v.toList ++ items).reverse false))
  | .object members k :: stack, v =>
    abandon stack (some (.object ((k, v.getD .cut) :: members).reverse false))

def giveUp (stack : List Frame) (v : Option Json) : State := .over ⟨abandon stack v, false⟩

/-- A token where a value must begin. -/
def beginValue (stack : List Frame) : Token → State
  | .scalar v => .after stack v
  | .openArray => .firstItem stack
  | .openObject => .firstKey stack
  | _ => giveUp stack none

/-- A token after the complete value `v`. -/
def afterValue (stack : List Frame) (v : Json) (t : Token) : State :=
  match stack, t with
  | [], _ => .over ⟨v, false⟩
  | .array items :: stack, .comma => .value (.array (v :: items) :: stack)
  | .array items :: stack, .closeArray => .after stack (.array (v :: items).reverse true)
  | .object members k :: stack, .comma => .key stack ((k, v) :: members)
  | .object members k :: stack, .closeObject =>
    .after stack (.object ((k, v) :: members).reverse true)
  | stack, _ => giveUp stack (some v)

def step : State → Token → State
  | .value stack, t => beginValue stack t
  | .firstItem stack, .closeArray => .after stack (.array [] true)
  | .firstItem stack, t => beginValue (.array [] :: stack) t
  | .firstKey stack, .closeObject => .after stack (.object [] true)
  | .firstKey stack, .scalar (.text k) => .colon stack [] k
  | .firstKey stack, _ => giveUp stack (some (.object [] false))
  | .key stack members, .scalar (.text k) => .colon stack members k
  | .key stack members, _ => giveUp stack (some (.object members.reverse false))
  | .colon stack members k, .colon => .value (.object members k :: stack)
  | .colon stack members k, _ => giveUp (.object members k :: stack) none
  | .after stack v, t => afterValue stack v t
  | .over d, _ => .over d

/-- The document when the text ends. -/
def finish : State → Document
  | .value stack => ⟨abandon stack none, false⟩
  | .firstItem stack => ⟨abandon (.array [] :: stack) none, false⟩
  | .firstKey stack => ⟨abandon stack (some (.object [] false)), false⟩
  | .key stack members => ⟨abandon stack (some (.object members.reverse false)), false⟩
  | .colon stack members k => ⟨abandon (.object members k :: stack) none, false⟩
  | .after [] v => ⟨v, true⟩
  | .after stack v => ⟨abandon stack (some v), false⟩
  | .over d => d

def ofTokens (ts : List Token) : Document := finish (ts.foldl step (.value []))

def read (s : String) : Document := ofTokens (Token.scan s)

end Document

end Ecoa.Json
