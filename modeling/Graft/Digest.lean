/-
Module: Graft.Digest
Purpose: The 64-bit xxHash of a list of bytes, with seed zero.
Main exports: Digest.ofBytes, Digest.ofString, Digest.hex
-/

namespace Graft.Digest

def prime1 : UInt64 := 0x9E3779B185EBCA87
def prime2 : UInt64 := 0xC2B2AE3D27D4EB4F
def prime3 : UInt64 := 0x165667B19E3779F9
def prime4 : UInt64 := 0x85EBCA77C2B2AE63
def prime5 : UInt64 := 0x27D4EB2F165667C5

/-- Rotate a word to the left by a number of bits between one and 63. -/
def rotateLeft (word count : UInt64) : UInt64 := (word <<< count) ||| (word >>> (64 - count))

/-- The little-endian number that a list of bytes spells. -/
def littleEndian : List UInt8 → UInt64
  | [] => 0
  | byte :: rest => byte.toUInt64 + (littleEndian rest <<< 8)

/-- Take one word into a lane. -/
def round (lane word : UInt64) : UInt64 := rotateLeft (lane + word * prime2) 31 * prime1

/-- The four lanes that long inputs are spread over. -/
structure Lanes where
  first : UInt64
  second : UInt64
  third : UInt64
  fourth : UInt64
deriving DecidableEq, Repr, Inhabited

namespace Lanes

def start : Lanes := ⟨prime1 + prime2, prime2, 0, 0 - prime1⟩

/-- Take 32 bytes, eight into each lane. -/
def absorb (lanes : Lanes) (bytes : List UInt8) : Lanes :=
  ⟨round lanes.first (littleEndian (bytes.take 8)),
    round lanes.second (littleEndian ((bytes.drop 8).take 8)),
    round lanes.third (littleEndian ((bytes.drop 16).take 8)),
    round lanes.fourth (littleEndian ((bytes.drop 24).take 8))⟩

/-- Take as many blocks of 32 bytes as there are, and leave the bytes after them. -/
def absorbBlocks (lanes : Lanes) (bytes : List UInt8) : Lanes × List UInt8 :=
  if 32 ≤ bytes.length then absorbBlocks (lanes.absorb bytes) (bytes.drop 32) else (lanes, bytes)
termination_by bytes.length

/-- Join the lanes to one word. -/
def join (lanes : Lanes) : UInt64 :=
  let sum := rotateLeft lanes.first 1 + rotateLeft lanes.second 7 + rotateLeft lanes.third 12 +
    rotateLeft lanes.fourth 18
  [lanes.first, lanes.second, lanes.third, lanes.fourth].foldl
    (fun word lane => (word ^^^ round 0 lane) * prime1 + prime4) sum

end Lanes

/-- Take the last bytes, which are fewer than eight. -/
def absorbBytes (word : UInt64) (bytes : List UInt8) : UInt64 :=
  bytes.foldl (fun word byte => rotateLeft (word ^^^ byte.toUInt64 * prime5) 11 * prime1) word

/-- Take the bytes after the last block: words of eight, then one of four, then single bytes. -/
def absorbTail (word : UInt64) (bytes : List UInt8) : UInt64 :=
  if 8 ≤ bytes.length then
    let next := word ^^^ round 0 (littleEndian (bytes.take 8))
    absorbTail (rotateLeft next 27 * prime1 + prime4) (bytes.drop 8)
  else if 4 ≤ bytes.length then
    let next := word ^^^ littleEndian (bytes.take 4) * prime1
    absorbBytes (rotateLeft next 23 * prime2 + prime3) (bytes.drop 4)
  else
    absorbBytes word bytes
termination_by bytes.length

/-- Spread every bit over the whole word. -/
def finish (word : UInt64) : UInt64 :=
  let word := (word ^^^ (word >>> 33)) * prime2
  let word := (word ^^^ (word >>> 29)) * prime3
  word ^^^ (word >>> 32)

/-- The digest of a list of bytes. -/
def ofBytes (bytes : List UInt8) : UInt64 :=
  if 32 ≤ bytes.length then
    let (lanes, tail) := Lanes.start.absorbBlocks bytes
    finish (absorbTail (lanes.join + bytes.length.toUInt64) tail)
  else
    finish (absorbTail (prime5 + bytes.length.toUInt64) bytes)

/-- The digest of a text in UTF-8. -/
def ofString (text : String) : UInt64 := ofBytes text.toUTF8.toList

/-- The eight bytes of a word, the lowest first. -/
def bytesOf (word : UInt64) : List UInt8 :=
  (List.range 8).map fun place => (word >>> (8 * place).toUInt64).toUInt8

/-- A word as `0x` and 16 lower-case hexadecimal digits. -/
def hex (word : UInt64) : String :=
  let digits := Nat.toDigits 16 word.toNat
  "0x" ++ String.ofList (List.replicate (16 - digits.length) '0' ++ digits)

end Graft.Digest
