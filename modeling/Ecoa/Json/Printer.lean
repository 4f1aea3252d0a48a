import Ecoa.Json.Basic

/-!
# Compact JSON texts

`compact` writes a value without spaces. Quotes, backslashes and control characters below U+0020
are escaped, the latter by a letter where there is one; every other character stands for itself.
-/

namespace Ecoa.Json

def hexDigit (n : Nat) : Char := if n < 10 then Char.ofNat (48 + n) else Char.ofNat (87 + n)

def escapeChar (c : Char) : List Char :=
  if c = '"' then ['\\', '"']
  else if c = '\\' then ['\\', '\\']
  else if c = '\x08' then ['\\', 'b']
  else if c = '\x0c' then ['\\', 'f']
  else if c = '\n' then ['\\', 'n']
  else if c = '\r' then ['\\', 'r']
  else if c = '\t' then ['\\', 't']
  else if c.toNat < 0x20 then
    ['\\', 'u', '0', '0', hexDigit (c.toNat / 16), hexDigit (c.toNat % 16)]
  else [c]

def quoted (s : String) : List Char := '"' :: (s.toList.flatMap escapeChar ++ ['"'])

def decimal (n : Int) : List Char :=
  if n < 0 then '-' :: Nat.toDigits 10 n.natAbs else Nat.toDigits 10 n.natAbs

mutual

def chars : Json → List Char
  | .null | .real | .unreadable | .cut => ['n', 'u', 'l', 'l']
  | .bool true => ['t', 'r', 'u', 'e']
  | .bool false => ['f', 'a', 'l', 's', 'e']
  | .int n => decimal n
  | .text s => quoted s
  | .array [] _ => ['[', ']']
  | .array (v :: vs) _ => '[' :: (v.chars ++ itemChars vs)
  | .object [] _ => ['{', '}']
  | .object ((k, v) :: ms) _ => '{' :: (quoted k ++ ':' :: (v.chars ++ memberChars ms))

/-- The items after the first, with the closing bracket. -/
def itemChars : List Json → List Char
  | [] => [']']
  | v :: vs => ',' :: (v.chars ++ itemChars vs)

/-- The members after the first, with the closing brace. -/
def memberChars : List (String × Json) → List Char
  | [] => ['}']
  | (k, v) :: ms => ',' :: (quoted k ++ ':' :: (v.chars ++ memberChars ms))

end

def compact (v : Json) : String := .ofList v.chars

end Ecoa.Json
