/-!
# The xxHash64 digest

Four accumulators take the input 32 bytes at a time; what is left is mixed in by 8, by 4 and by
single bytes. Words are read with the least byte first.
-/

namespace Ecoa.XxHash64

def prime1 : UInt64 := 0x9E3779B185EBCA87
def prime2 : UInt64 := 0xC2B2AE3D27D4EB4F
def prime3 : UInt64 := 0x165667B19E3779F9
def prime4 : UInt64 := 0x85EBCA77C2B2AE63
def prime5 : UInt64 := 0x27D4EB2F165667C5

def rotateLeft (x : UInt64) (n : UInt64) : UInt64 := (x <<< n) ||| (x >>> (64 - n))

def word (bytes : List UInt8) : UInt64 :=
  bytes.foldr (fun b w => (w <<< 8) ||| b.toUInt64) 0

def round (acc input : UInt64) : UInt64 := rotateLeft (acc + input * prime2) 31 * prime1

def merge (acc value : UInt64) : UInt64 := (acc ^^^ round 0 value) * prime1 + prime4

/-- Take `blocks` blocks of 32 bytes, and leave what follows them. -/
def consume (a b c d : UInt64) : Nat → List UInt8 → UInt64 × UInt64 × UInt64 × UInt64 × List UInt8
  | 0, rest => (a, b, c, d, rest)
  | blocks + 1, bytes =>
    consume (round a (word (bytes.take 8))) (round b (word ((bytes.drop 8).take 8)))
      (round c (word ((bytes.drop 16).take 8))) (round d (word ((bytes.drop 24).take 8)))
      blocks (bytes.drop 32)

def mixByte (h : UInt64) (b : UInt8) : UInt64 :=
  rotateLeft (h ^^^ (b.toUInt64 * prime5)) 11 * prime1

def mixQuad (h : UInt64) (bytes : List UInt8) : UInt64 :=
  rotateLeft (h ^^^ (word bytes * prime1)) 23 * prime2 + prime3

def mixWord (h : UInt64) (bytes : List UInt8) : UInt64 :=
  rotateLeft (h ^^^ round 0 (word bytes)) 27 * prime1 + prime4

/-- Mix in fewer than 8 bytes. -/
def mixRest (h : UInt64) (bytes : List UInt8) : UInt64 :=
  if 4 ≤ bytes.length then (bytes.drop 4).foldl mixByte (mixQuad h (bytes.take 4))
  else bytes.foldl mixByte h

/-- Mix in fewer than 32 bytes, `words` words of 8 bytes first. -/
def mixTail (h : UInt64) : Nat → List UInt8 → UInt64
  | 0, bytes => mixRest h bytes
  | words + 1, bytes => mixTail (mixWord h (bytes.take 8)) words (bytes.drop 8)

def avalanche (h : UInt64) : UInt64 :=
  let h := (h ^^^ (h >>> 33)) * prime2
  let h := (h ^^^ (h >>> 29)) * prime3
  h ^^^ (h >>> 32)

def digest (seed : UInt64) (bytes : List UInt8) : UInt64 :=
  let (a, b, c, d, rest) := consume (seed + prime1 + prime2) (seed + prime2) seed (seed - prime1)
    (bytes.length / 32) bytes
  let h := if 32 ≤ bytes.length then
      let h := rotateLeft a 1 + rotateLeft b 7 + rotateLeft c 12 + rotateLeft d 18
      merge (merge (merge (merge h a) b) c) d
    else seed + prime5
  avalanche (mixTail (h + bytes.length.toUInt64) (rest.length / 8) rest)

/-- A digest as sixteen hexadecimal digits. -/
def text (h : UInt64) : String :=
  let digits := Nat.toDigits 16 h.toNat
  .ofList (List.replicate (16 - digits.length) '0' ++ digits)

example : digest 0 [] = 0xEF46DB3751D8E999 := by decide +kernel

end Ecoa.XxHash64
