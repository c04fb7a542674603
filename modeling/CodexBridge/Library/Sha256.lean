import Mathlib.Data.List.Basic
import Mathlib.Algebra.GroupWithZero.Nat

/-! # SHA-256

The digest as FIPS 180-4 defines it, for messages of whole bytes: the functions of section 4.1.2,
the padding of section 5.1.1 and the hash computation of section 6.2.2. Everything computes, so
that a digest can be evaluated.
-/

namespace CodexBridge.Library.Sha256

abbrev Word := BitVec 32

/-- The eight words of a hash value, or the eight working variables. -/
structure Octet (α : Type) where
  a : α
  b : α
  c : α
  d : α
  e : α
  f : α
  g : α
  h : α

namespace Octet

variable {α β : Type}

def map (φ : α → β) (v : Octet α) : Octet β :=
  ⟨φ v.a, φ v.b, φ v.c, φ v.d, φ v.e, φ v.f, φ v.g, φ v.h⟩

def toList (v : Octet α) : List α := [v.a, v.b, v.c, v.d, v.e, v.f, v.g, v.h]

end Octet

/-! ## Functions and constants -/

def ch (x y z : Word) : Word := (x &&& y) ^^^ (~~~x &&& z)

def maj (x y z : Word) : Word := (x &&& y) ^^^ (x &&& z) ^^^ (y &&& z)

def bigSigma0 (x : Word) : Word := x.rotateRight 2 ^^^ x.rotateRight 13 ^^^ x.rotateRight 22

def bigSigma1 (x : Word) : Word := x.rotateRight 6 ^^^ x.rotateRight 11 ^^^ x.rotateRight 25

def smallSigma0 (x : Word) : Word := x.rotateRight 7 ^^^ x.rotateRight 18 ^^^ x >>> 3

def smallSigma1 (x : Word) : Word := x.rotateRight 17 ^^^ x.rotateRight 19 ^^^ x >>> 10

/-- The first 32 bits of the fractional parts of the cube roots of the first 64 primes. -/
def constants : List Word :=
  [0x428a2f98, 0x71374491, 0xb5c0fbcf, 0xe9b5dba5, 0x3956c25b, 0x59f111f1, 0x923f82a4, 0xab1c5ed5,
   0xd807aa98, 0x12835b01, 0x243185be, 0x550c7dc3, 0x72be5d74, 0x80deb1fe, 0x9bdc06a7, 0xc19bf174,
   0xe49b69c1, 0xefbe4786, 0x0fc19dc6, 0x240ca1cc, 0x2de92c6f, 0x4a7484aa, 0x5cb0a9dc, 0x76f988da,
   0x983e5152, 0xa831c66d, 0xb00327c8, 0xbf597fc7, 0xc6e00bf3, 0xd5a79147, 0x06ca6351, 0x14292967,
   0x27b70a85, 0x2e1b2138, 0x4d2c6dfc, 0x53380d13, 0x650a7354, 0x766a0abb, 0x81c2c92e, 0x92722c85,
   0xa2bfe8a1, 0xa81a664b, 0xc24b8b70, 0xc76c51a3, 0xd192e819, 0xd6990624, 0xf40e3585, 0x106aa070,
   0x19a4c116, 0x1e376c08, 0x2748774c, 0x34b0bcb5, 0x391c0cb3, 0x4ed8aa4a, 0x5b9cca4f, 0x682e6ff3,
   0x748f82ee, 0x78a5636f, 0x84c87814, 0x8cc70208, 0x90befffa, 0xa4506ceb, 0xbef9a3f7, 0xc67178f2]

/-- The first 32 bits of the fractional parts of the square roots of the first 8 primes. -/
def initial : Octet Word :=
  ⟨0x6a09e667, 0xbb67ae85, 0x3c6ef372, 0xa54ff53a, 0x510e527f, 0x9b05688c, 0x1f83d9ab, 0x5be0cd19⟩

def wordAt (bytes : List UInt8) (i : Nat) : Word :=
  (bytes.getD (4 * i) 0).toBitVec ++ (bytes.getD (4 * i + 1) 0).toBitVec ++
    (bytes.getD (4 * i + 2) 0).toBitVec ++ (bytes.getD (4 * i + 3) 0).toBitVec

def nextWord (ws : List Word) : Word :=
  let t := ws.length
  smallSigma1 (ws.getD (t - 2) 0) + ws.getD (t - 7) 0 + smallSigma0 (ws.getD (t - 15) 0) +
    ws.getD (t - 16) 0

def schedule (block : List UInt8) : List Word :=
  (List.range 48).foldl (fun ws _ => ws ++ [nextWord ws]) ((List.range 16).map (wordAt block))

def step (v : Octet Word) (k w : Word) : Octet Word :=
  let t1 := v.h + bigSigma1 v.e + ch v.e v.f v.g + k + w
  let t2 := bigSigma0 v.a + maj v.a v.b v.c
  ⟨t1 + t2, v.a, v.b, v.c, v.d + t1, v.e, v.f, v.g⟩

def rounds (ws : List Word) (v : Octet Word) : Octet Word :=
  (List.range 64).foldl (fun v t => step v (constants.getD t 0) (ws.getD t 0)) v

def compress (hash : Octet Word) (block : List UInt8) : Octet Word :=
  let v := rounds (schedule block) hash
  ⟨v.a + hash.a, v.b + hash.b, v.c + hash.c, v.d + hash.d, v.e + hash.e, v.f + hash.f,
   v.g + hash.g, v.h + hash.h⟩

/-- The hash value after the first `n` blocks. -/
def absorb : Nat → Octet Word → List UInt8 → Octet Word
  | 0, hash, _ => hash
  | n + 1, hash, bytes => absorb n (compress hash (bytes.take 64)) (bytes.drop 64)

/-- The low `n` bytes of a number, the highest first. -/
def bigEndian : Nat → Nat → List UInt8
  | 0, _ => []
  | n + 1, x => UInt8.ofNat (x / 256 ^ n % 256) :: bigEndian n x

def pad (message : List UInt8) : List UInt8 :=
  message ++ [0x80] ++ List.replicate ((119 - message.length % 64) % 64) 0 ++
    bigEndian 8 (8 * message.length)

def digest (message : List UInt8) : Octet Word :=
  absorb ((pad message).length / 64) initial (pad message)

def hexWord (w : Word) : List Char :=
  (List.range 8).map fun i => Nat.digitChar (w.toNat / 16 ^ (7 - i) % 16)

def hex (hash : Octet Word) : String := String.ofList (hash.toList.flatMap hexWord)

example : hex (digest [0x61, 0x62, 0x63]) =
    "ba7816bf8f01cfea414140de5dae2223b00361a396177a9cb410ff61f20015ad" := by decide +kernel

@[simp] theorem length_bigEndian (n x : Nat) : (bigEndian n x).length = n := by
  induction n with
  | zero => rfl
  | succ n ih => simp [bigEndian, ih]

/-- Padding fills whole blocks. -/
theorem length_pad (message : List UInt8) : (pad message).length % 64 = 0 := by
  simp only [pad, List.length_append, List.length_replicate, length_bigEndian, List.length_cons,
    List.length_nil]
  omega

theorem absorb_add (m n : Nat) (hash : Octet Word) (bytes : List UInt8) :
    absorb (m + n) hash bytes = absorb n (absorb m hash bytes) (bytes.drop (64 * m)) := by
  induction m generalizing hash bytes with
  | zero => simp [absorb]
  | succ m ih =>
    have hdrop : (bytes.drop 64).drop (64 * m) = bytes.drop (64 * (m + 1)) := by
      rw [List.drop_drop]
      congr 1
      omega
    rw [Nat.add_right_comm, absorb, absorb, ih, hdrop]

theorem absorb_one (hash : Octet Word) (block : List UInt8) (h : block.length = 64) :
    absorb 1 hash block = compress hash block := by
  rw [absorb, absorb, List.take_of_length_le (Nat.le_of_eq h)]

theorem absorb_append (n : Nat) (hash : Octet Word) (bytes more : List UInt8)
    (h : 64 * n ≤ bytes.length) : absorb n hash (bytes ++ more) = absorb n hash bytes := by
  induction n generalizing hash bytes with
  | zero => rfl
  | succ n ih =>
    have htake : (bytes ++ more).take 64 = bytes.take 64 :=
      List.take_append_of_le_length (by omega)
    have hdrop : (bytes ++ more).drop 64 = bytes.drop 64 ++ more :=
      List.drop_append_of_le_length (by omega)
    rw [absorb, absorb, htake, hdrop]
    exact ih _ _ (by rw [List.length_drop]; omega)

end CodexBridge.Library.Sha256
