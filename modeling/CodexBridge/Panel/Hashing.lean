import CodexBridge.Library.JsNumber
import CodexBridge.Library.Sha256

/-! # The digest of an upload

The panel hashes a file slice by slice before it uploads it. The hasher keeps the words in typed
arrays and computes with JavaScript's numbers.
-/

namespace CodexBridge.Panel

open Library Library.JsNumber
open Library.Sha256 (Octet Word)

/-! ## Typed arrays -/

/-- `target.set(source, offset)`. -/
def setBytes (target source : List UInt8) (offset : Nat) : List UInt8 :=
  target.take offset ++ source ++ target.drop (offset + source.length)

/-- `bytes.subarray(start, stop)`. -/
def subarray (bytes : List UInt8) (start stop : Nat) : List UInt8 := (bytes.take stop).drop start

def byteAt (block : List UInt8) (i : Nat) : Int := ((block.getD i 0).toNat : Int)

def cell (words : List Word) (i : Nat) : Int := ofCell (words.getD i 0)

def store (words : List Word) (i : Nat) (x : Int) : List Word := words.set i (toBits x)

def appendBytes (left right : List UInt8) : List UInt8 :=
  let combined := List.replicate (left.length + right.length) 0
  setBytes (setBytes combined left 0) right left.length

def rightRotate (value : Int) (amount : Nat) : Int :=
  bitOr (ushr value amount) (shl value (32 - amount))

def sha256Words : List Word :=
  [0x428a2f98, 0x71374491, 0xb5c0fbcf, 0xe9b5dba5, 0x3956c25b, 0x59f111f1, 0x923f82a4, 0xab1c5ed5,
   0xd807aa98, 0x12835b01, 0x243185be, 0x550c7dc3, 0x72be5d74, 0x80deb1fe, 0x9bdc06a7, 0xc19bf174,
   0xe49b69c1, 0xefbe4786, 0x0fc19dc6, 0x240ca1cc, 0x2de92c6f, 0x4a7484aa, 0x5cb0a9dc, 0x76f988da,
   0x983e5152, 0xa831c66d, 0xb00327c8, 0xbf597fc7, 0xc6e00bf3, 0xd5a79147, 0x06ca6351, 0x14292967,
   0x27b70a85, 0x2e1b2138, 0x4d2c6dfc, 0x53380d13, 0x650a7354, 0x766a0abb, 0x81c2c92e, 0x92722c85,
   0xa2bfe8a1, 0xa81a664b, 0xc24b8b70, 0xc76c51a3, 0xd192e819, 0xd6990624, 0xf40e3585, 0x106aa070,
   0x19a4c116, 0x1e376c08, 0x2748774c, 0x34b0bcb5, 0x391c0cb3, 0x4ed8aa4a, 0x5b9cca4f, 0x682e6ff3,
   0x748f82ee, 0x78a5636f, 0x84c87814, 0x8cc70208, 0x90befffa, 0xa4506ceb, 0xbef9a3f7, 0xc67178f2]

/-- What the first loop of `_compress` stores. -/
def blockWord (block : List UInt8) (index : Nat) : Int :=
  let offset := index * 4
  ushr (bitOr (bitOr (bitOr (shl (byteAt block offset) 24) (shl (byteAt block (offset + 1)) 16))
    (shl (byteAt block (offset + 2)) 8)) (byteAt block (offset + 3))) 0

/-- What the second loop of `_compress` stores. -/
def mixedWord (words : List Word) (index : Nat) : Int :=
  let gamma0 := bitXor (bitXor (rightRotate (cell words (index - 15)) 7)
    (rightRotate (cell words (index - 15)) 18)) (ushr (cell words (index - 15)) 3)
  let gamma1 := bitXor (bitXor (rightRotate (cell words (index - 2)) 17)
    (rightRotate (cell words (index - 2)) 19)) (ushr (cell words (index - 2)) 10)
  ushr (add (add (add (cell words (index - 16)) gamma0) (cell words (index - 7))) gamma1) 0

def storeBlock (block : List UInt8) (words : List Word) : List Word :=
  (List.range 16).foldl (fun words index => store words index (blockWord block index)) words

def storeMixed (words : List Word) (count : Nat) : List Word :=
  (List.range' 16 count).foldl (fun words index => store words index (mixedWord words index)) words

/-- One turn of the third loop of `_compress`. -/
def turn (words : List Word) (v : Octet Int) (index : Nat) : Octet Int :=
  let sigma1 := bitXor (bitXor (rightRotate v.e 6) (rightRotate v.e 11)) (rightRotate v.e 25)
  let choose := bitXor (bitAnd v.e v.f) (bitAnd (bitNot v.e) v.g)
  let temp1 := ushr (add (add (add (add v.h sigma1) choose) (cell sha256Words index))
    (cell words index)) 0
  let sigma0 := bitXor (bitXor (rightRotate v.a 2) (rightRotate v.a 13)) (rightRotate v.a 22)
  let majority := bitXor (bitXor (bitAnd v.a v.b) (bitAnd v.a v.c)) (bitAnd v.b v.c)
  let temp2 := ushr (add sigma0 majority) 0
  { h := v.g
    g := v.f
    f := v.e
    e := ushr (add v.d temp1) 0
    d := v.c
    c := v.b
    b := v.a
    a := ushr (add temp1 temp2) 0 }

def addCell (w : Word) (x : Int) : Word := toBits (ushr (add (ofCell w) x) 0)

structure IncrementalSha256 where
  state : Octet Word
  tail : List UInt8
  length : Int
  workspace : List Word

namespace IncrementalSha256

def new : IncrementalSha256 where
  state := ⟨0x6a09e667, 0xbb67ae85, 0x3c6ef372, 0xa54ff53a, 0x510e527f, 0x9b05688c, 0x1f83d9ab,
    0x5be0cd19⟩
  tail := []
  length := 0
  workspace := List.replicate 64 0

/-- `_compress`. The workspace keeps the words of the block before. -/
def compress (s : IncrementalSha256) (block : List UInt8) : IncrementalSha256 :=
  let words := storeMixed (storeBlock block s.workspace) 48
  let v := (List.range 64).foldl (turn words) (s.state.map ofCell)
  { s with
    workspace := words
    state := ⟨addCell s.state.a v.a, addCell s.state.b v.b, addCell s.state.c v.c,
      addCell s.state.d v.d, addCell s.state.e v.e, addCell s.state.f v.f, addCell s.state.g v.g,
      addCell s.state.h v.h⟩ }

/-- The `while` loop of `update`: the hasher and the position after it. -/
def compressFrom (s : IncrementalSha256) (bytes : List UInt8) (position : Nat) :
    IncrementalSha256 × Nat :=
  if position + 64 ≤ bytes.length then
    compressFrom (s.compress (subarray bytes position (position + 64))) bytes (position + 64)
  else (s, position)
termination_by bytes.length - position

def takeIn (s : IncrementalSha256) (bytes : List UInt8) (position : Nat) : IncrementalSha256 :=
  let (s, position) := s.compressFrom bytes position
  if position < bytes.length then { s with tail := bytes.drop position } else s

def update (s : IncrementalSha256) (bytes : List UInt8) : IncrementalSha256 :=
  let s := { s with length := add s.length bytes.length }
  if s.tail.length ≠ 0 then
    let missing := 64 - s.tail.length
    if bytes.length < missing then { s with tail := appendBytes s.tail bytes }
    else
      let block := setBytes (List.replicate 64 0) s.tail 0
      let block := setBytes block (subarray bytes 0 missing) s.tail.length
      { s.compress block with tail := [] }.takeIn bytes missing
  else s.takeIn bytes 0

/-- `Number((totalBits >> BigInt(index * 8)) & 0xffn)` in a cell of a `Uint8Array`. -/
def lengthByte (totalBits : Int) (index : Nat) : UInt8 :=
  UInt8.ofNat ((totalBits >>> (index * 8)) % 256).toNat

def finalBlock (s : IncrementalSha256) : List UInt8 :=
  let totalBits := s.length * 8
  let paddingLength := if s.tail.length < 56 then 64 else 128
  let finalBlock := setBytes (List.replicate paddingLength 0) s.tail 0
  let finalBlock := finalBlock.set s.tail.length 0x80
  (List.range 8).foldl (fun block index =>
    block.set (block.length - 1 - index) (lengthByte totalBits index)) finalBlock

def finish (s : IncrementalSha256) (block : List UInt8) (position : Nat) : IncrementalSha256 :=
  if position < block.length then
    (s.compress (subarray block position (position + 64))).finish block (position + 64)
  else s
termination_by block.length - position

def hexCell (word : Word) : List Char := (Nat.toDigits 16 word.toNat).leftpad 8 '0'

def hexDigest (s : IncrementalSha256) : String :=
  String.ofList ((s.finish s.finalBlock 0).state.toList.flatMap hexCell)

end IncrementalSha256

def uploadChunkBytes : Int := 8 * 1024 * 1024

/-- The codes of the `UploadError`s of `sha256File`. -/
inductive HashFailure where
  | invalidChunkSize
  | aborted
  | invalidFile

/-- The loop of `sha256File`. `failure` says at which offsets the signal is set or the slice cannot
be read. Above `2 ^ 53` an offset is rounded, but stays past the end of the file. -/
def hashFrom (file : List UInt8) (size : Nat) (hsize : 0 < size)
    (failure : Nat → Option HashFailure) (hasher : IncrementalSha256) (offset : Nat) :
    Except HashFailure IncrementalSha256 :=
  if offset < file.length then
    match failure offset with
    | some e => .error e
    | none =>
      hashFrom file size hsize failure
        (hasher.update (subarray file offset (min file.length (offset + size)))) (offset + size)
  else .ok hasher
termination_by file.length - offset

theorem toNat_pos_of_accepted {chunkSize : Int}
    (h : ¬ (chunkSize < 1 ∨ chunkSize > uploadChunkBytes)) : 0 < chunkSize.toNat := by
  omega

/-- `sha256File`. A chunk size that is no safe integer is `none`. -/
def sha256File (file : List UInt8) (chunkSize : Option Int)
    (failure : Nat → Option HashFailure) : Except HashFailure String :=
  match chunkSize with
  | none => .error .invalidChunkSize
  | some chunkSize =>
    if h : chunkSize < 1 ∨ chunkSize > uploadChunkBytes then .error .invalidChunkSize
    else
      (hashFrom file chunkSize.toNat (toNat_pos_of_accepted h) failure IncrementalSha256.new 0).map
        IncrementalSha256.hexDigest

end CodexBridge.Panel
