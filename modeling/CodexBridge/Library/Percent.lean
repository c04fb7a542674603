import Mathlib.Data.List.Basic

/-! # Percent encoding

Every byte outside the unreserved characters is written as a percent sign and two hex
digits, so the text of some bytes can be read back and is made of few characters.
-/

namespace Percent

/-- `A`-`Z`, `a`-`z`, `0`-`9`, `_`, `.`, `-` and `~`. -/
def isUnreserved (b : UInt8) : Bool :=
  (65 ≤ b && b ≤ 90) || (97 ≤ b && b ≤ 122) || (48 ≤ b && b ≤ 57) ||
    b = 95 || b = 46 || b = 45 || b = 126

def hexDigit (n : Nat) : Char := Char.ofNat (if n < 10 then 48 + n else 55 + n)

def hexValue (c : Char) : Option Nat :=
  if '0' ≤ c ∧ c ≤ '9' then some (c.toNat - 48)
  else if 'A' ≤ c ∧ c ≤ 'F' then some (c.toNat - 55)
  else if 'a' ≤ c ∧ c ≤ 'f' then some (c.toNat - 87)
  else none

def encodeByte (b : UInt8) : List Char :=
  if isUnreserved b then [Char.ofNat b.toNat]
  else ['%', hexDigit (b.toNat / 16), hexDigit (b.toNat % 16)]

def encode (bytes : List UInt8) : List Char := bytes.flatMap encodeByte

/-- A percent sign without two hex digits stands for itself. -/
def decode : List Char → List UInt8
  | [] => []
  | '%' :: a :: b :: rest =>
    match hexValue a, hexValue b with
    | some high, some low => UInt8.ofNat (16 * high + low) :: decode rest
    | _, _ => 37 :: decode (a :: b :: rest)
  | c :: rest => String.utf8EncodeChar c ++ decode rest

/-! ## Reading back -/

theorem hexValue_hexDigit : ∀ n < 16, hexValue (hexDigit n) = some n := by decide

theorem unreserved_byte : ∀ n < 256, isUnreserved (UInt8.ofNat n) = true →
    Char.ofNat n ≠ '%' ∧ String.utf8EncodeChar (Char.ofNat n) = [UInt8.ofNat n] := by
  decide +kernel

theorem decode_cons_of_ne {c : Char} (h : c ≠ '%') (rest : List Char) :
    decode (c :: rest) = String.utf8EncodeChar c ++ decode rest := by
  rw [decode]
  intro a b later heq
  exact absurd heq h

theorem decode_encodeByte (b : UInt8) (rest : List Char) :
    decode (encodeByte b ++ rest) = b :: decode rest := by
  have hlt : b.toNat < 256 := b.toNat_lt
  have hb : UInt8.ofNat b.toNat = b := UInt8.ofNat_toNat
  unfold encodeByte
  split
  · rename_i hsafe
    obtain ⟨hne, hutf8⟩ := unreserved_byte b.toNat hlt (hb.symm ▸ hsafe)
    change decode (Char.ofNat b.toNat :: rest) = _
    rw [decode_cons_of_ne hne, hutf8, hb]
    rfl
  have hhigh := hexValue_hexDigit (b.toNat / 16) (by omega)
  have hlow := hexValue_hexDigit (b.toNat % 16) (by omega)
  change decode ('%' :: hexDigit (b.toNat / 16) :: hexDigit (b.toNat % 16) :: rest) = _
  rw [decode, hhigh, hlow]
  have hsum : 16 * (b.toNat / 16) + b.toNat % 16 = b.toNat := by omega
  simp only [hsum, hb]

theorem decode_encode (bytes : List UInt8) : decode (encode bytes) = bytes := by
  induction bytes with
  | nil => rfl
  | cons b rest ih =>
    change decode (encodeByte b ++ encode rest) = _
    rw [decode_encodeByte, ih]

theorem hexDigit_mem : ∀ n < 16, ∀ p : Char → Bool,
    (∀ c ∈ "0123456789ABCDEF".toList, p c = true) → p (hexDigit n) = true := by
  intro n hn p hp
  refine hp _ ?_
  have hall : ∀ n < 16, hexDigit n ∈ "0123456789ABCDEF".toList := by decide
  exact hall n hn

/-- A class of characters holds of the whole text if it holds of the unreserved ones, the
hex digits and the percent sign. -/
theorem all_encode {p : Char → Bool} (hsafe : ∀ n < 256, isUnreserved (UInt8.ofNat n) = true →
    p (Char.ofNat n) = true) (hpercent : p '%' = true)
    (hhex : ∀ c ∈ "0123456789ABCDEF".toList, p c = true) (bytes : List UInt8) :
    (encode bytes).all p = true := by
  rw [List.all_eq_true]
  intro c hc
  obtain ⟨b, _, hb⟩ := List.mem_flatMap.mp hc
  have hlt : b.toNat < 256 := b.toNat_lt
  unfold encodeByte at hb
  split at hb
  · rename_i hun
    rw [List.mem_singleton.mp hb]
    exact hsafe b.toNat hlt (by rw [UInt8.ofNat_toNat]; exact hun)
  rcases List.mem_cons.mp hb with rfl | hb
  · exact hpercent
  rcases List.mem_cons.mp hb with rfl | hb
  · exact hexDigit_mem _ (by omega) p hhex
  · rw [List.mem_singleton.mp hb]
    exact hexDigit_mem _ (by omega) p hhex

theorem length_encodeByte (b : UInt8) : 1 ≤ (encodeByte b).length ∧ (encodeByte b).length ≤ 3 := by
  unfold encodeByte
  split
  · rw [List.length_singleton]
    omega
  · simp only [List.length_cons, List.length_nil]
    omega

/-- The text is at least as long as the bytes, and at most three times. -/
theorem length_encode (bytes : List UInt8) :
    bytes.length ≤ (encode bytes).length ∧ (encode bytes).length ≤ 3 * bytes.length := by
  induction bytes with
  | nil => exact ⟨Nat.le_refl _, Nat.le_refl _⟩
  | cons b rest ih =>
    have hb := length_encodeByte b
    change _ ≤ (encodeByte b ++ encode rest).length ∧
      (encodeByte b ++ encode rest).length ≤ _
    rw [List.length_append, List.length_cons]
    omega

end Percent
