import Ecoa.Json.Basic

/-!
# JSON tokens

`Token.scan` cuts a text into tokens, one character at a time. A character that no token admits
gives `bad`, and nothing after it is read. A number ends before the first character that cannot
go on with it; that character then begins the next token.
-/

namespace Ecoa.Json

inductive Token where
  | openArray
  | closeArray
  | openObject
  | closeObject
  | comma
  | colon
  | scalar (v : Json)
  | bad
  deriving Inhabited

namespace Token

/-- How far a number has come: after its sign, after a leading zero, and so on. -/
inductive Stage where
  | sign
  | zero
  | whole
  | point
  | fraction
  | mark
  | markSign
  | exponent
  deriving DecidableEq

namespace Stage

/-- What a character does to a number: `none` ends it, `some none` is an error. -/
def step : Stage → Char → Option (Option Stage)
  | .sign, c => some (if c = '0' then some .zero else if c.isDigit then some .whole else none)
  | .zero, c =>
    if c.isDigit then some none
    else if c = '.' then some (some .point)
    else if c = 'e' ∨ c = 'E' then some (some .mark)
    else none
  | .whole, c =>
    if c.isDigit then some (some .whole)
    else if c = '.' then some (some .point)
    else if c = 'e' ∨ c = 'E' then some (some .mark)
    else none
  | .point, c => some (if c.isDigit then some .fraction else none)
  | .fraction, c =>
    if c.isDigit then some (some .fraction)
    else if c = 'e' ∨ c = 'E' then some (some .mark)
    else none
  | .mark, c =>
    some (if c.isDigit then some .exponent else if c = '+' ∨ c = '-' then some .markSign else none)
  | .markSign, c => some (if c.isDigit then some .exponent else none)
  | .exponent, c => if c.isDigit then some (some .exponent) else none

/-- A number may end here. -/
def final : Stage → Bool
  | .zero | .whole | .fraction | .exponent => true
  | _ => false

end Stage

/-- The number written by decimal digits. -/
def ofDigits (cs : List Char) : Nat := cs.foldl (fun n c => 10 * n + (c.toNat - '0'.toNat)) 0

/-- The largest number below which every number rounds to a finite double. -/
def doubleLimit : Nat := Nat.pow 2 1024 - Nat.pow 2 970

/-- The decimal `digits · 10 ^ exponent` is below `doubleLimit`; `length` counts the digits, and
powers of ten are taken only where it leaves a doubt. -/
def isFinite (digits : Nat) (length : Nat) (exponent : Int) : Bool :=
  if digits = 0 then true
  else if exponent < 0 then
    if length ≤ 300 + exponent.natAbs then true
    else decide (digits < doubleLimit * Nat.pow 10 exponent.natAbs)
  else if 400 < exponent.natAbs then false
  else decide (digits * Nat.pow 10 exponent.natAbs < doubleLimit)

/-- The value of a number that ends properly. -/
def numberValue (cs : List Char) : Json :=
  let negative := cs.head? = some '-'
  let body := if negative then cs.drop 1 else cs
  let whole := body.takeWhile Char.isDigit
  let rest := body.drop whole.length
  match rest with
  | [] =>
    let n := ofDigits whole
    if negative && n = 0 then .real
    else if n < doubleLimit then .int (if negative then -n else n)
    else .unreadable
  | _ =>
    let fraction := match rest with
      | '.' :: more => more.takeWhile Char.isDigit
      | _ => []
    let power := (rest.dropWhile fun c => c = '.' || c.isDigit).drop 1
    let digits := power.dropWhile fun c => c = '+' || c = '-'
    let size : Int := if power.head? = some '-' then -(ofDigits digits) else ofDigits digits
    if isFinite (ofDigits (whole ++ fraction)) (whole ++ fraction).length (size - fraction.length)
    then .real else .unreadable

/-- Where the scan stands. Read characters are kept newest first; `valid` is false in a text that
has an unpaired surrogate. -/
inductive Mode where
  | between
  | word (rest : List Char) (value : Json)
  | number (stage : Stage) (seen : List Char)
  | text (seen : List Char) (valid : Bool)
  | escape (seen : List Char) (valid : Bool) (high : Option Nat)
  | hex (seen : List Char) (valid : Bool) (high : Option Nat) (missing : Nat) (value : Nat)
  | paired (seen : List Char) (valid : Bool) (high : Nat)
  | failed

def hexDigit? (c : Char) : Option Nat :=
  if c.isDigit then some (c.toNat - '0'.toNat)
  else if 'a' ≤ c ∧ c ≤ 'f' then some (c.toNat - 'a'.toNat + 10)
  else if 'A' ≤ c ∧ c ≤ 'F' then some (c.toNat - 'A'.toNat + 10)
  else none

def escaped? : Char → Option Char
  | '"' => some '"'
  | '\\' => some '\\'
  | '/' => some '/'
  | 'b' => some '\x08'
  | 'f' => some '\x0c'
  | 'n' => some '\n'
  | 'r' => some '\r'
  | 't' => some '\t'
  | _ => none

/-- The scan after one more character outside every token. -/
def begin (out : List Token) (c : Char) : Mode × List Token :=
  match c with
  | ' ' | '\t' | '\n' | '\r' => (.between, out)
  | '[' => (.between, .openArray :: out)
  | ']' => (.between, .closeArray :: out)
  | '{' => (.between, .openObject :: out)
  | '}' => (.between, .closeObject :: out)
  | ',' => (.between, .comma :: out)
  | ':' => (.between, .colon :: out)
  | '"' => (.text [] true, out)
  | 't' => (.word ['r', 'u', 'e'] (.bool true), out)
  | 'f' => (.word ['a', 'l', 's', 'e'] (.bool false), out)
  | 'n' => (.word ['u', 'l', 'l'] .null, out)
  | '-' => (.number .sign ['-'], out)
  | '0' => (.number .zero ['0'], out)
  | c => if c.isDigit then (.number .whole [c], out) else (.failed, .bad :: out)

/-- A character inside a text. -/
def inText (seen : List Char) (valid : Bool) (out : List Token) (c : Char) : Mode × List Token :=
  if c = '"' then
    (.between, .scalar (if valid then .text (.ofList seen.reverse) else .unreadable) :: out)
  else if c = '\\' then (.escape seen valid none, out)
  else if c.toNat < 0x20 then (.failed, .bad :: out)
  else (.text (c :: seen) valid, out)

/-- A character after a backslash. -/
def inEscape (seen : List Char) (valid : Bool) (high : Option Nat) (out : List Token) (c : Char) :
    Mode × List Token :=
  if c = 'u' then (.hex seen valid high 4 0, out)
  else match escaped? c with
    | some d => (.text (d :: seen) (valid && high.isNone), out)
    | none => (.failed, .bad :: out)

/-- The text after a whole `\uXXXX`, with the high surrogate that came before it. -/
def afterHex (seen : List Char) (valid : Bool) (high : Option Nat) (n : Nat) : Mode :=
  match high with
  | some h =>
    if 0xDC00 ≤ n ∧ n ≤ 0xDFFF then
      .text (Char.ofNat (0x10000 + (h - 0xD800) * 0x400 + (n - 0xDC00)) :: seen) valid
    else .text seen false
  | none =>
    if 0xD800 ≤ n ∧ n ≤ 0xDBFF then .paired seen valid n
    else if 0xDC00 ≤ n ∧ n ≤ 0xDFFF then .text seen false
    else .text (Char.ofNat n :: seen) valid

def step (state : Mode × List Token) (c : Char) : Mode × List Token :=
  let (mode, out) := state
  match mode with
  | .between => begin out c
  | .word [] v => begin (.scalar v :: out) c
  | .word [d] v => if c = d then (.between, .scalar v :: out) else (.failed, .bad :: out)
  | .word (d :: ds) v => if c = d then (.word ds v, out) else (.failed, .bad :: out)
  | .number stage seen =>
    match stage.step c with
    | some (some next) => (.number next (c :: seen), out)
    | some none => (.failed, .bad :: out)
    | none => begin (.scalar (numberValue seen.reverse) :: out) c
  | .text seen valid => inText seen valid out c
  | .escape seen valid high => inEscape seen valid high out c
  | .hex seen valid high missing n =>
    match hexDigit? c with
    | none => (.failed, .bad :: out)
    | some d =>
      if missing ≤ 1 then (afterHex seen valid high (16 * n + d), out)
      else (.hex seen valid high (missing - 1) (16 * n + d), out)
  | .paired seen valid high =>
    if c = '\\' then (.escape seen valid (some high), out) else inText seen false out c
  | .failed => (.failed, out)

/-- The tokens when the text ends. -/
def finish : Mode × List Token → List Token
  | (.between, out) => out
  | (.failed, out) => out
  | (.number stage seen, out) =>
    (if stage.final then .scalar (numberValue seen.reverse) else .bad) :: out
  | (_, out) => .bad :: out

def scan (s : String) : List Token := (finish (s.toList.foldl step (.between, []))).reverse

end Token

end Ecoa.Json
