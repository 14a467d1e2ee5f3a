import TFDB.Format

/-!
# Compression codecs

The codec interface and the three built-in codecs of `codec.cpp`: none, PackBits and the LZ4
block format.  The encoders work on the input that is left (`rest`); a loop of the source is
a recursion with a step count, called with one that its length never exceeds.

A decoder first reserves memory, and a reservation may end the call by an exception.
`PackBitsCodec.decompress` and `Lz4BlockCodec.decompress` are the whole calls; a
`CompressionCodec` has what they return.
-/

set_option autoImplicit false

namespace TFDB

open ByteLib

/-- The interface of a codec, with what its calls return.  The store asks for the size in a block
header, which has 32 bits; memory is taken to suffice for it. -/
structure CompressionCodec where
  id : CompressionId
  version : UInt16
  maxCompressedSize : Nat → Nat
  compress : Bytes → Except Status Bytes
  decompress : Bytes → Nat → Except Status Bytes

def sizeMax : Nat := 2 ^ 64 - 1

/-! ## Reservations -/

/-- How a call ends that does not return. -/
inductive Exception
  | lengthError | badAlloc
  deriving DecidableEq, Repr

/-- Which requests for memory, in bytes, are served. -/
abbrev Allocator : Type := Nat → Bool

/-- Memory without end. -/
def ample : Allocator := fun _ => true

/-- The largest size of a vector of bytes. -/
def vectorMaxSize : Nat := 2 ^ 63 - 1

/-- `std::vector::reserve` of an empty vector. -/
def reserve (memory : Allocator) (size : Nat) : Except Exception Unit :=
  if size > vectorMaxSize then .error .lengthError
  else if size = 0 ∨ memory size = true then .ok ()
  else .error .badAlloc

/-! ## None -/

namespace NoneCodec

def decompress (input : Bytes) (expectedSize : Nat) : Except Status Bytes :=
  if input.length ≠ expectedSize then failWith .corrupt "raw block size mismatch" else .ok input

end NoneCodec

/-- The codec that stores raw data. -/
def noCompressionCodec : CompressionCodec where
  id := .none
  version := 1
  maxCompressedSize n := n
  compress input := .ok input
  decompress := NoneCodec.decompress

/-! ## PackBits -/

namespace PackBits

def maxCompressedSize (inputSize : Nat) : Nat :=
  let overhead := inputSize / 128 + (if inputSize % 128 = 0 then 0 else 1)
  if inputSize > sizeMax - overhead then sizeMax else inputSize + overhead

/-- How often the first byte repeats at the front, at most 130 times. -/
def repeated : Bytes → Nat
  | [] => 1
  | b :: rest => 1 + ((rest.take 129).takeWhile (· == b)).length

/-- The inner loop: extend a literal group of `count` bytes until a run of three starts. -/
def literalCount (rest : Bytes) : Nat → Nat → Nat
  | 0, count => count
  | steps + 1, count =>
    if count < rest.length ∧ count < 128 then
      let run := repeated (rest.drop count)
      if run ≥ 3 then count else literalCount rest steps (count + min run (128 - count))
    else count

/-- The groups of the input, one at a time. -/
def compressLoop : Nat → Bytes → Bytes
  | 0, _ => []
  | _ + 1, [] => []
  | steps + 1, b :: tail =>
    let rest := b :: tail
    let run := repeated rest
    if run ≥ 3 then
      let run := min run 130
      UInt8.ofNat (0x80 ||| (run - 3)) :: b :: compressLoop steps (rest.drop run)
    else
      let count := literalCount rest 128 run
      UInt8.ofNat (count - 1) :: (rest.take count ++ compressLoop steps (rest.drop count))

def compress (input : Bytes) : Except Status Bytes := .ok (compressLoop input.length input)

def decompressLoop (expectedSize : Nat) : Nat → Bytes → Bytes → Except Status Bytes
  | 0, _, decoded => .ok decoded
  | _ + 1, [], decoded => .ok decoded
  | steps + 1, token :: rest, decoded =>
    if token &&& 0x80 = 0 then
      let count := token.toNat + 1
      if count > rest.length ∨ count > expectedSize - decoded.length then
        failWith .corrupt "invalid PackBits literal"
      else decompressLoop expectedSize steps (rest.drop count) (decoded ++ rest.take count)
    else
      let count := (token &&& 0x7f).toNat + 3
      match rest with
      | [] => failWith .corrupt "invalid PackBits run"
      | b :: rest =>
        if count > expectedSize - decoded.length then failWith .corrupt "invalid PackBits run"
        else decompressLoop expectedSize steps rest (decoded ++ List.replicate count b)

/-- What `decompress` returns, with the output reserved. -/
def decompress (input : Bytes) (expectedSize : Nat) : Except Status Bytes := do
  let decoded ← decompressLoop expectedSize input.length input []
  if decoded.length ≠ expectedSize then failWith .corrupt "PackBits output size mismatch"
  else .ok decoded

end PackBits

/-- `PackBitsCodec::decompress`: the announced size is reserved before the input is looked at. -/
def PackBitsCodec.decompress (memory : Allocator) (input : Bytes) (expectedSize : Nat) :
    Except Exception (Except Status Bytes) := do
  reserve memory expectedSize
  return PackBits.decompress input expectedSize

/-- PackBits, version 1. -/
def packbitsCodec : CompressionCodec where
  id := .packbits
  version := 1
  maxCompressedSize := PackBits.maxCompressedSize
  compress := PackBits.compress
  decompress := PackBits.decompress

/-! ## LZ4 block -/

namespace Lz4

def minMatch : Nat := 4
def lastLiterals : Nat := 5
def matchFindLimit : Nat := 12
def maxDistance : Nat := 65535

def maxCompressedSize (inputSize : Nat) : Nat :=
  let overhead := inputSize / 255 + 16
  if inputSize > sizeMax - overhead then sizeMax else inputSize + overhead

/-- Four bytes as a number. -/
def load32 (data : Bytes) (position : Nat) : UInt32 := get32 data position

/-- The slot of a sequence in the table. -/
def hash (sequence : UInt32) : Nat := ((sequence * 2654435761) >>> 20).toNat

/-- The bytes behind a saturated nibble. -/
def writeLength : Nat → Nat → Bytes
  | 0, remaining => [UInt8.ofNat remaining]
  | steps + 1, remaining =>
    if remaining ≥ 255 then 255 :: writeLength steps (remaining - 255)
    else [UInt8.ofNat remaining]

/-- A nibble and the bytes behind it. -/
def lengthNibble (n : Nat) : Nat := if n ≥ 15 then 15 else n
def lengthTail (n : Nat) : Bytes := if n ≥ 15 then writeLength n (n - 15) else []

/-- A token with its literals and its match. -/
def emitSequence (literals : Bytes) (distance matchLength : Nat) : Bytes :=
  let encodedMatch := matchLength - minMatch
  UInt8.ofNat (lengthNibble literals.length * 16 + lengthNibble encodedMatch) ::
    (lengthTail literals.length ++ literals ++
      [UInt8.ofNat (distance % 256), UInt8.ofNat (distance / 256 % 256)] ++ lengthTail encodedMatch)

/-- The final token, which has no match. -/
def emitLastLiterals (literals : Bytes) : Bytes :=
  UInt8.ofNat (lengthNibble literals.length * 16) :: (lengthTail literals.length ++ literals)

/-- Extend a match of `length` bytes while the data agrees. -/
def matchLength (data : Bytes) (matchPos position matchLimit : Nat) : Nat → Nat → Nat
  | 0, length => length
  | steps + 1, length =>
    if position + length < matchLimit ∧
        data.getD (matchPos + length) 0 = data.getD (position + length) 0 then
      matchLength data matchPos position matchLimit steps (length + 1)
    else length

/-- The search loop.  `table` maps a hash to one more than the last position seen with it;
the result is the encoded bytes and the start of the literals still to be written. -/
def searchLoop (data : Bytes) : Nat → (Nat → Nat) → Nat → Nat → Bytes → Bytes × Nat
  | 0, _, _, anchor, encoded => (encoded, anchor)
  | steps + 1, table, position, anchor, encoded =>
    if position < data.length - matchFindLimit then
      let slot := hash (load32 data position)
      let candidate := table slot
      let table := Function.update table slot (position + 1)
      if candidate = 0 then searchLoop data steps table (position + 1) anchor encoded
      else
        let matchPos := candidate - 1
        let distance := position - matchPos
        if distance > maxDistance ∨ load32 data matchPos ≠ load32 data position then
          searchLoop data steps table (position + 1) anchor encoded
        else
          let length := matchLength data matchPos position (data.length - lastLiterals)
            data.length minMatch
          searchLoop data steps table (position + length) (position + length)
            (encoded ++ emitSequence (slice data anchor (position - anchor)) distance length)
    else (encoded, anchor)

def compress (data : Bytes) : Except Status Bytes :=
  if data.length > matchFindLimit then
    let (encoded, anchor) := searchLoop data data.length (fun _ => 0) 0 0 []
    .ok (encoded ++ emitLastLiterals (data.drop anchor))
  else .ok (emitLastLiterals data)

/-- Continue a saturated nibble; the total is capped by `limit`. -/
def readLength (limit : Nat) : Nat → Bytes → Option (Nat × Bytes)
  | _, [] => none
  | length, extra :: rest =>
    if length > limit ∨ extra.toNat > limit - length then none
    else if extra ≠ 255 then some (length + extra.toNat, rest)
    else readLength limit (length + extra.toNat) rest

/-- The length a nibble announces, with the input behind it. -/
def nibbleLength (limit nibble : Nat) (rest : Bytes) : Option (Nat × Bytes) :=
  if nibble = 15 then readLength limit nibble rest else some (nibble, rest)

/-- Copy `n` bytes from `distance` back, one at a time. -/
def copyMatch (distance : Nat) : Nat → Bytes → Bytes
  | 0, decoded => decoded
  | n + 1, decoded => copyMatch distance n (decoded ++ [decoded.getD (decoded.length - distance) 0])

/-- Where the last match landed in the output. -/
abbrev LastMatch := Option (Nat × Nat)

def decompressLoop (expectedSize : Nat) :
    Nat → Bytes → Bytes → LastMatch → Except Status (Bytes × LastMatch)
  | 0, _, decoded, last => .ok (decoded, last)
  | _ + 1, [], decoded, last => .ok (decoded, last)
  | steps + 1, token :: rest, decoded, last =>
    match nibbleLength expectedSize (token.toNat / 16) rest with
    | none => failWith .corrupt "invalid LZ4 literal length"
    | some (literals, rest) =>
      if literals > rest.length ∨ literals > expectedSize - decoded.length then
        failWith .corrupt "LZ4 literals exceed input or raw size"
      else
        let decoded := decoded ++ rest.take literals
        match rest.drop literals with
        | [] =>
          if token.toNat % 16 ≠ 0 then failWith .corrupt "LZ4 final sequence announces a match"
          else .ok (decoded, last)
        | [_] => failWith .corrupt "truncated LZ4 match offset"
        | low :: high :: rest =>
          let distance := low.toNat + 256 * high.toNat
          if distance = 0 ∨ distance > decoded.length then
            failWith .corrupt "LZ4 match offset outside decoded output"
          else
            match nibbleLength expectedSize (token.toNat % 16) rest with
            | none => failWith .corrupt "invalid LZ4 match length"
            | some (length, rest) =>
              if length > sizeMax - minMatch then failWith .corrupt "LZ4 match length overflow"
              else
                let length := length + minMatch
                if length > expectedSize - decoded.length then
                  failWith .corrupt "LZ4 match exceeds raw size"
                else
                  decompressLoop expectedSize steps rest (copyMatch distance length decoded)
                    (some (decoded.length, decoded.length + length))

/-- What `decompress` returns, with the output reserved. -/
def decompress (input : Bytes) (expectedSize : Nat) : Except Status Bytes := do
  let (decoded, last) ← decompressLoop expectedSize input.length input [] none
  if decoded.length ≠ expectedSize then failWith .corrupt "LZ4 output size mismatch"
  else
    match last with
    | none => .ok decoded
    | some (lastBegin, lastEnd) =>
      if expectedSize - lastEnd < lastLiterals ∨ expectedSize - lastBegin < matchFindLimit then
        failWith .corrupt "LZ4 last match breaks the parsing restrictions"
      else .ok decoded

/-- `lz4_output_reserve`: no more than the announced size, and no more than the input can expand
to. -/
def outputReserve (storedSize expectedSize : Nat) : Nat :=
  if storedSize > (sizeMax - 32) / 255 then expectedSize
  else min (storedSize * 255 + 32) expectedSize

end Lz4

/-- `Lz4BlockCodec::decompress`. -/
def Lz4BlockCodec.decompress (memory : Allocator) (input : Bytes) (expectedSize : Nat) :
    Except Exception (Except Status Bytes) := do
  reserve memory (Lz4.outputReserve input.length expectedSize)
  return Lz4.decompress input expectedSize

/-- LZ4 blocks, version 1. -/
def lz4BlockCodec : CompressionCodec where
  id := .lz4Block
  version := 1
  maxCompressedSize := Lz4.maxCompressedSize
  compress := Lz4.compress
  decompress := Lz4.decompress

/-- The codecs every store has. -/
def builtInCodec (id : CompressionId) : Option CompressionCodec :=
  if id = .none then some noCompressionCodec
  else if id = .packbits then some packbitsCodec
  else if id = .lz4Block then some lz4BlockCodec
  else none

end TFDB
