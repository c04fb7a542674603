import Mathlib.Data.Nat.Digits.Defs
import Mathlib.Data.List.Basic

/-! # JSON text and its length

Text is a list of code points, surrogates among them, as a Python string is; only text without
surrogates has an encoding in UTF-8. The scalars of a JSON document are written as the standard
encoder writes them when it may use all characters.
-/

namespace JsonText

/-! ## Text -/

abbrev CodePoint : Type := Fin 0x110000

abbrev Text : Type := List CodePoint

def ofChar (c : Char) : CodePoint :=
  ⟨c.toNat, Nat.lt_of_le_of_lt (Nat.le_of_lt_succ (by
    have hvalid := c.valid
    rcases hvalid with hlow | ⟨_, hhigh⟩
    · exact Nat.lt_of_lt_of_le hlow (by decide)
    · exact Nat.lt_of_lt_of_le hhigh (by decide))) (by decide : 0x10FFFF < 0x110000)⟩

def ofChars (cs : List Char) : Text := cs.map ofChar

def utf8Width (c : CodePoint) : Option Nat :=
  if c.val ≤ 0x7F then some 1
  else if c.val ≤ 0x7FF then some 2
  else if 0xD800 ≤ c.val ∧ c.val ≤ 0xDFFF then none
  else if c.val ≤ 0xFFFF then some 3
  else some 4

/-- `len(text.encode("utf-8"))`, where the text has an encoding. -/
def utf8Length : Text → Option Nat
  | [] => some 0
  | c :: rest => (utf8Width c).bind fun width => (utf8Length rest).map (width + ·)

def Fits (text : Text) (size : Nat) : Prop :=
    ∃ length, utf8Length text = some length ∧ length ≤ size

theorem fits_nil : Fits [] 0 := ⟨0, rfl, Nat.le_refl 0⟩

theorem Fits.mono {text : Text} {m n : Nat} (h : Fits text m) (hle : m ≤ n) : Fits text n := by
  obtain ⟨length, hlength, hm⟩ := h
  exact ⟨length, hlength, Nat.le_trans hm hle⟩

theorem Fits.cons {c : CodePoint} {text : Text} {width n : Nat} (hc : utf8Width c = some width)
    (h : Fits text n) : Fits (c :: text) (width + n) := by
  obtain ⟨length, hlength, hn⟩ := h
  refine ⟨width + length, ?_, by omega⟩
  rw [utf8Length, hc, Option.bind_some, hlength, Option.map_some]

theorem Fits.append {a b : Text} {m n : Nat} (ha : Fits a m) (hb : Fits b n) :
    Fits (a ++ b) (m + n) := by
  obtain ⟨length, hlength, hm⟩ := ha
  induction a generalizing length m with
  | nil =>
    cases hlength
    exact hb.mono (by omega)
  | cons c rest ih =>
    rw [utf8Length] at hlength
    obtain ⟨width, hwidth, hrest⟩ := Option.bind_eq_some_iff.mp hlength
    obtain ⟨tail, htail, rfl⟩ := Option.map_eq_some_iff.mp hrest
    have hfits : Fits (rest ++ b) (tail + n) := ih tail htail (Nat.le_refl tail)
    exact (hfits.cons hwidth).mono (by omega)

theorem fits_of_ascii {text : Text} (h : ∀ c ∈ text, c.val ≤ 0x7F) : Fits text text.length := by
  induction text with
  | nil => exact fits_nil
  | cons c rest ih =>
    have hc : utf8Width c = some 1 := by
      unfold utf8Width
      rw [if_pos (h c List.mem_cons_self)]
    have hrest := ih fun d hd => h d (List.mem_cons_of_mem c hd)
    exact (hrest.cons hc).mono (by simp [Nat.add_comm])

/-- `"0123456789abcdef"[n]`. -/
def hexDigit (n : Nat) : CodePoint :=
  if n < 10 then ofChar (Char.ofNat (48 + n)) else ofChar (Char.ofNat (87 + n))

/-- The replacement of one character in a JSON string. -/
def escape (c : CodePoint) : Text :=
  if c.val = 0x22 then ofChars ['\\', '"']
  else if c.val = 0x5C then ofChars ['\\', '\\']
  else if c.val = 0x08 then ofChars ['\\', 'b']
  else if c.val = 0x09 then ofChars ['\\', 't']
  else if c.val = 0x0A then ofChars ['\\', 'n']
  else if c.val = 0x0C then ofChars ['\\', 'f']
  else if c.val = 0x0D then ofChars ['\\', 'r']
  else if c.val < 0x20 then
    ofChars ['\\', 'u', '0', '0'] ++ [hexDigit (c.val / 16), hexDigit (c.val % 16)]
  else [c]

def quote (text : Text) : Text := ofChars ['"'] ++ text.flatMap escape ++ ofChars ['"']

def IsAscii (cs : List Char) : Prop := ∀ c ∈ cs, c.toNat ≤ 0x7F

theorem isAscii_nil : IsAscii [] := fun _ hc => by cases hc

theorem IsAscii.append {as bs : List Char} (ha : IsAscii as) (hb : IsAscii bs) :
    IsAscii (as ++ bs) := by
  intro c hc
  rcases List.mem_append.mp hc with hc | hc
  · exact ha c hc
  · exact hb c hc

theorem IsAscii.cons {c : Char} {cs : List Char} (hc : c.toNat ≤ 0x7F) (h : IsAscii cs) :
    IsAscii (c :: cs) := by
  intro d hd
  rcases List.mem_cons.mp hd with rfl | hd
  · exact hc
  · exact h d hd

theorem fits_ofChars {cs : List Char} (h : IsAscii cs) : Fits (ofChars cs) cs.length := by
  have hascii : ∀ c ∈ ofChars cs, c.val ≤ 0x7F := by
    intro c hc
    obtain ⟨d, hd, rfl⟩ := List.mem_map.mp hc
    exact h d hd
  have hfits := fits_of_ascii hascii
  rw [ofChars, List.length_map] at hfits
  exact hfits

theorem hexDigit_ascii {n : Nat} (h : n < 16) : (hexDigit n).val ≤ 0x7F := by
  have hall : ∀ k : Fin 16, (hexDigit k.val).val ≤ 0x7F := by decide
  exact hall ⟨n, h⟩

/-- Quotes and backslashes take two bytes, controls at most six, the others as many as without
escaping. -/
theorem fits_escape {c : CodePoint} {width : Nat} (h : utf8Width c = some width) :
    Fits (escape c) (if c.val = 0x22 ∨ c.val = 0x5C then 2 else if c.val < 0x20 then 6
      else width) := by
  have hpair : ∀ d : Char, d.toNat ≤ 0x7F → Fits (ofChars ['\\', d]) 2 := by
    intro d hd
    exact fits_ofChars (.cons (by decide) (.cons hd isAscii_nil))
  unfold escape
  by_cases hquote : c.val = 0x22
  · rw [if_pos hquote, if_pos (.inl hquote)]
    exact hpair '"' (by decide)
  by_cases hslash : c.val = 0x5C
  · rw [if_neg hquote, if_pos hslash, if_pos (.inr hslash)]
    exact hpair '\\' (by decide)
  have hneither : ¬ (c.val = 0x22 ∨ c.val = 0x5C) := by omega
  rw [if_neg hquote, if_neg hslash, if_neg hneither]
  by_cases hcontrol : c.val < 0x20
  · have htwo : ∀ d : Char, d.toNat ≤ 0x7F → Fits (ofChars ['\\', d]) 6 :=
      fun d hd => (hpair d hd).mono (by decide)
    have hlead : Fits (ofChars ['\\', 'u', '0', '0']) 4 :=
      fits_ofChars (.cons (by decide) (.cons (by decide) (.cons (by decide)
        (.cons (by decide) isAscii_nil))))
    have hdigits : Fits [hexDigit (c.val / 16), hexDigit (c.val % 16)] 2 := by
      apply fits_of_ascii
      intro d hd
      rcases List.mem_pair.mp hd with rfl | rfl
      · exact hexDigit_ascii (by omega)
      · exact hexDigit_ascii (by omega)
    have hsix := hlead.append hdigits
    simp only [if_pos hcontrol]
    split
    · exact htwo 'b' (by decide)
    split
    · exact htwo 't' (by decide)
    split
    · exact htwo 'n' (by decide)
    split
    · exact htwo 'f' (by decide)
    split
    · exact htwo 'r' (by decide)
    · exact hsix
  · rw [if_neg (by omega), if_neg (by omega), if_neg (by omega), if_neg (by omega),
      if_neg (by omega)]
    simp only [if_neg hcontrol]
    exact (fits_nil.cons h).mono (by omega)

def decimalDigits (n : Nat) : List Char := Nat.toDigits 10 n

/-- `repr` of an integer. -/
def integer (i : Int) : Text :=
  ofChars (if i < 0 then '-' :: decimalDigits i.natAbs else decimalDigits i.natAbs)

def bitLength (i : Int) : Nat := if i = 0 then 0 else i.natAbs.log2 + 1

theorem decimalDigits_length (i : Int) : (decimalDigits i.natAbs).length ≤ max 1 (bitLength i) := by
  have hpos : 0 < max 1 (bitLength i) := by omega
  apply (Nat.length_toDigits_le_iff (by decide : 1 < 10) hpos).mpr
  unfold bitLength
  by_cases hi : i = 0
  · rw [hi]
    decide
  rw [if_neg hi]
  have hsize : i.natAbs < 2 ^ (i.natAbs.log2 + 1) := Nat.lt_log2_self
  have hbase : 2 ^ (i.natAbs.log2 + 1) ≤ 10 ^ (i.natAbs.log2 + 1) :=
    Nat.pow_le_pow_left (by decide) _
  have hmax : max 1 (i.natAbs.log2 + 1) = i.natAbs.log2 + 1 := by omega
  rw [hmax]
  omega

theorem decimalDigits_ascii (n : Nat) : IsAscii (decimalDigits n) := by
  intro c hc
  have hdigit := Nat.isDigit_of_mem_toDigits (by decide) (by decide) hc
  simp only [Char.isDigit, Bool.and_eq_true, decide_eq_true_eq] at hdigit
  have hle : c.val.toNat ≤ 57 := hdigit.2
  show c.val.toNat ≤ 0x7F
  omega

theorem fits_integer (i : Int) : Fits (integer i) (max 1 (bitLength i) + 1) := by
  have hlength := decimalDigits_length i
  have hascii := decimalDigits_ascii i.natAbs
  unfold integer
  split
  · exact (fits_ofChars (.cons (by decide) hascii)).mono (by rw [List.length_cons]; omega)
  · exact (fits_ofChars hascii).mono (by omega)

/-- A finite floating-point number by the shortest digits that determine it, as `repr` finds
them: its value is `0.d₁d₂… × 10 ^ point`. -/
structure FiniteFloat where
  negative : Bool
  digits : List (Fin 10)
  point : Int
  nonempty : digits ≠ []
  short : digits.length ≤ 17
  small : -323 ≤ point
  large : point ≤ 309

def digitChar (d : Fin 10) : Char := Char.ofNat (48 + d.val)

def zeros (n : Nat) : List Char := List.replicate n '0'

/-- The exponent of `repr` has a sign and at least two digits. -/
def exponentChars (e : Int) : List Char :=
  'e' :: (if e < 0 then '-' else '+') ::
    (if e.natAbs < 10 then '0' :: decimalDigits e.natAbs else decimalDigits e.natAbs)

/-- `repr` of the absolute value. -/
def FiniteFloat.chars (f : FiniteFloat) : List Char :=
  let ds := f.digits.map digitChar
  if -4 < f.point ∧ f.point ≤ 16 then
    if f.point ≤ 0 then '0' :: '.' :: zeros (-f.point).toNat ++ ds
    else if f.digits.length ≤ f.point.toNat then
      ds ++ zeros (f.point.toNat - f.digits.length) ++ ['.', '0']
    else ds.take f.point.toNat ++ '.' :: ds.drop f.point.toNat
  else
    let rest := ds.drop 1
    ds.take 1 ++ (if rest = [] then [] else '.' :: rest) ++ exponentChars (f.point - 1)

/-- `repr` of a finite float. -/
def FiniteFloat.text (f : FiniteFloat) : Text :=
  ofChars (if f.negative then '-' :: f.chars else f.chars)

theorem digitChar_ascii (d : Fin 10) : (digitChar d).toNat ≤ 0x7F := by
  have hall : ∀ d : Fin 10, (digitChar d).toNat ≤ 0x7F := by decide
  exact hall d

theorem digits_ascii (ds : List (Fin 10)) : IsAscii (ds.map digitChar) := by
  intro c hc
  obtain ⟨d, _, rfl⟩ := List.mem_map.mp hc
  exact digitChar_ascii d

theorem zeros_ascii (n : Nat) : IsAscii (zeros n) := by
  intro c hc
  rw [List.eq_of_mem_replicate hc]
  decide

theorem exponentChars_ascii (e : Int) : IsAscii (exponentChars e) := by
  have hdigits := decimalDigits_ascii e.natAbs
  unfold exponentChars
  apply IsAscii.cons (by decide)
  apply IsAscii.cons
  · split
    · decide
    · decide
  · split
    · exact hdigits.cons (by decide)
    · exact hdigits

theorem exponentChars_length {e : Int} (h : e.natAbs < 1000) : (exponentChars e).length ≤ 5 := by
  have hshort : ∀ {n k : Nat}, 0 < k → n < 10 ^ k → (decimalDigits n).length ≤ k :=
    fun hk hn => (Nat.length_toDigits_le_iff (by decide) hk).mpr hn
  unfold exponentChars
  rw [List.length_cons, List.length_cons]
  split
  · rename_i hsmall
    have hone := hshort (k := 1) (by decide) hsmall
    rw [List.length_cons]
    omega
  · have hthree := hshort (k := 3) (by decide) h
    omega

theorem IsAscii.sublist {as bs : List Char} (h : IsAscii bs) (hsub : as.Sublist bs) : IsAscii as :=
  fun c hc => h c (hsub.mem hc)

theorem FiniteFloat.chars_ascii (f : FiniteFloat) : IsAscii f.chars := by
  have hds := digits_ascii f.digits
  have hdot : IsAscii ['.', '0'] := .cons (by decide) (.cons (by decide) isAscii_nil)
  unfold FiniteFloat.chars
  dsimp only
  split
  · split
    · exact IsAscii.append (.cons (by decide) (.cons (by decide) (zeros_ascii _))) hds
    split
    · exact (hds.append (zeros_ascii _)).append hdot
    · exact (hds.sublist (List.take_sublist _ _)).append
        ((hds.sublist (List.drop_sublist _ _)).cons (by decide))
  have hrest := hds.sublist (List.drop_sublist 1 _)
  apply IsAscii.append _ (exponentChars_ascii _)
  apply (hds.sublist (List.take_sublist 1 _)).append
  split
  · exact isAscii_nil
  · exact hrest.cons (by decide)

theorem FiniteFloat.chars_length (f : FiniteFloat) : f.chars.length ≤ 23 := by
  have hshort := f.short
  have hpos := List.length_pos_iff.mpr f.nonempty
  have hsmall := f.small
  have hlarge := f.large
  unfold FiniteFloat.chars
  dsimp only
  split
  · rename_i hplain
    split
    · simp only [List.length_append, List.length_cons, List.length_map, zeros,
        List.length_replicate]
      omega
    split
    · simp only [List.length_append, List.length_cons, List.length_map, List.length_nil, zeros,
        List.length_replicate]
      omega
    · simp only [List.length_append, List.length_cons, List.length_take, List.length_drop,
        List.length_map]
      omega
  · have hexponent : (exponentChars (f.point - 1)).length ≤ 5 := exponentChars_length (by omega)
    rw [List.length_append, List.length_append, List.length_take, List.length_map]
    split
    · rw [List.length_nil]
      omega
    · rw [List.length_cons, List.length_drop, List.length_map]
      omega

theorem FiniteFloat.fits_text (f : FiniteFloat) : Fits f.text 24 := by
  have hlength := f.chars_length
  unfold FiniteFloat.text
  split
  · exact (fits_ofChars (f.chars_ascii.cons (by decide))).mono (by rw [List.length_cons]; omega)
  · exact (fits_ofChars f.chars_ascii).mono (by omega)

end JsonText
