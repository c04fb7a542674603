import CodexBridge.Library.JsonText

/-! # Text in UTF-8

A text with a surrogate has no encoding; other texts have one each, and two texts never share it.
-/

namespace JsonText

/-! ## Code points -/

def toChar (c : CodePoint) : Option Char :=
  if 0xD800 ≤ c.val ∧ c.val ≤ 0xDFFF then none else some (Char.ofNat c.val)

/-- `text.encode("utf-8")`, where the text has an encoding. -/
def encode : Text → Option (List UInt8)
  | [] => some []
  | c :: rest => (toChar c).bind fun char =>
    (encode rest).map (String.utf8EncodeChar char ++ ·)

theorem toNat_toChar {c : CodePoint} {char : Char} (h : toChar c = some char) :
    char.toNat = c.val := by
  unfold toChar at h
  by_cases hc : 0xD800 ≤ c.val ∧ c.val ≤ 0xDFFF
  · simp [hc] at h
  have hvalid : c.val.isValidChar := by
    have hlt := c.isLt
    unfold Nat.isValidChar
    omega
  rw [if_neg hc] at h
  cases h
  rw [Char.ofNat, dif_pos hvalid]
  rfl

theorem utf8EncodeChar_inj {c d : Char} {x y : List UInt8}
    (h : String.utf8EncodeChar c ++ x = String.utf8EncodeChar d ++ y) : c = d := by
  have hc := @ByteArray.utf8DecodeChar?_utf8EncodeChar_append x.toByteArray c
  have hd := @ByteArray.utf8DecodeChar?_utf8EncodeChar_append y.toByteArray d
  rw [← List.toByteArray_append] at hc hd
  rw [h, hd] at hc
  exact (Option.some.inj hc).symm

theorem zero_not_mem_utf8EncodeChar {c : Char} (h : c.toNat ≠ 0) :
    (0 : UInt8) ∉ String.utf8EncodeChar c := by
  have hle : c.val.toNat < 0x110000 := by
    have hvalid := c.valid
    unfold UInt32.isValidChar Nat.isValidChar at hvalid
    omega
  have hpos : c.val.toNat ≠ 0 := h
  have hbyte : ∀ n : Nat, n % 256 ≠ 0 → (0 : UInt8) ≠ UInt8.ofNat n := by
    intro n hn heq
    have hval := congrArg UInt8.toNat heq
    simp at hval
    omega
  unfold String.utf8EncodeChar
  simp only
  generalize c.val.toNat = v at hle hpos
  split
  · simp only [List.mem_singleton]
    exact hbyte v (by omega)
  split
  · simp only [List.mem_cons, List.not_mem_nil, or_false, not_or]
    exact ⟨hbyte _ (by omega), hbyte _ (by omega)⟩
  split
  · simp only [List.mem_cons, List.not_mem_nil, or_false, not_or]
    exact ⟨hbyte _ (by omega), hbyte _ (by omega), hbyte _ (by omega)⟩
  · simp only [List.mem_cons, List.not_mem_nil, or_false, not_or]
    exact ⟨hbyte _ (by omega), hbyte _ (by omega), hbyte _ (by omega), hbyte _ (by omega)⟩

/-! ## Texts -/

theorem encode_cons {c : CodePoint} {rest : Text} {bytes : List UInt8}
    (h : encode (c :: rest) = some bytes) :
    ∃ char tail, toChar c = some char ∧ encode rest = some tail ∧
      bytes = String.utf8EncodeChar char ++ tail := by
  rw [encode] at h
  obtain ⟨char, hchar, hrest⟩ := Option.bind_eq_some_iff.mp h
  obtain ⟨tail, htail, hbytes⟩ := Option.map_eq_some_iff.mp hrest
  exact ⟨char, tail, hchar, htail, hbytes.symm⟩

theorem encode_inj {a b : Text} {bytes : List UInt8} (ha : encode a = some bytes)
    (hb : encode b = some bytes) : a = b := by
  induction a generalizing b bytes with
  | nil =>
    cases ha
    cases b with
    | nil => rfl
    | cons d b =>
      obtain ⟨char, tail, _, _, hbytes⟩ := encode_cons hb
      have hne := @String.utf8EncodeChar_ne_nil char
      simp [hne] at hbytes
  | cons c a ih =>
    obtain ⟨char, tail, hchar, htail, rfl⟩ := encode_cons ha
    cases b with
    | nil =>
      have hne := @String.utf8EncodeChar_ne_nil char
      simp [encode, hne] at hb
    | cons d b =>
      obtain ⟨char', tail', hchar', htail', hbytes⟩ := encode_cons hb
      have hsame : char = char' := utf8EncodeChar_inj hbytes
      subst hsame
      have htails := List.append_cancel_left hbytes
      have hpoint : c = d := Fin.ext ((toNat_toChar hchar).symm.trans (toNat_toChar hchar'))
      rw [hpoint, ih htail (htails ▸ htail')]

theorem zero_not_mem_encode {text : Text} {bytes : List UInt8} (h : encode text = some bytes)
    (hplain : ∀ c ∈ text, c.val ≠ 0) : (0 : UInt8) ∉ bytes := by
  induction text generalizing bytes with
  | nil =>
    cases h
    exact List.not_mem_nil
  | cons c rest ih =>
    obtain ⟨char, tail, hchar, htail, rfl⟩ := encode_cons h
    have hc : char.toNat ≠ 0 := by
      rw [toNat_toChar hchar]
      exact hplain c List.mem_cons_self
    have hhead := zero_not_mem_utf8EncodeChar hc
    have hrest := ih htail fun d hd => hplain d (List.mem_cons_of_mem c hd)
    simp [hhead, hrest]

theorem encode_append (a b : Text) :
    encode (a ++ b) = (encode a).bind fun x => (encode b).map (x ++ ·) := by
  induction a with
  | nil => simp [encode]
  | cons c a ih =>
    rw [List.cons_append, encode, encode, ih]
    cases toChar c <;> cases encode a <;> cases encode b <;> simp

theorem toChar_ofChar (c : Char) : toChar (ofChar c) = some c := by
  have hvalid := c.valid
  have hplain : ¬(0xD800 ≤ (ofChar c).val ∧ (ofChar c).val ≤ 0xDFFF) := by
    show ¬(0xD800 ≤ c.val.toNat ∧ c.val.toNat ≤ 0xDFFF)
    unfold UInt32.isValidChar Nat.isValidChar at hvalid
    omega
  rw [toChar, if_neg hplain]
  exact congrArg some (Char.ofNat_toNat c)

theorem encode_ofChars (chars : List Char) :
    encode (ofChars chars) = some (chars.flatMap String.utf8EncodeChar) := by
  induction chars with
  | nil => rfl
  | cons c chars ih =>
    show (toChar (ofChar c)).bind (fun char =>
      (encode (ofChars chars)).map (String.utf8EncodeChar char ++ ·)) = _
    rw [toChar_ofChar, ih, List.flatMap_cons]
    rfl

theorem exists_ofChars {text : Text} (h : (encode text).isSome) :
    ∃ chars, text = ofChars chars := by
  induction text with
  | nil => exact ⟨[], rfl⟩
  | cons c rest ih =>
    obtain ⟨bytes, hbytes⟩ := Option.isSome_iff_exists.mp h
    obtain ⟨char, tail, hchar, htail, _⟩ := encode_cons hbytes
    obtain ⟨chars, hchars⟩ := ih (Option.isSome_of_eq_some htail)
    have hpoint : c = ofChar char := Fin.ext (toNat_toChar hchar).symm
    exact ⟨char :: chars, by rw [hpoint, hchars]; rfl⟩

/-- `data.decode("utf-8")`; there is no text where it raises `UnicodeDecodeError`. -/
def decode (data : List UInt8) : Option Text :=
  data.toByteArray.utf8Decode?.map fun chars => ofChars chars.toList

theorem decode_eq_some_iff {data : List UInt8} {text : Text} :
    decode data = some text ↔ encode text = some data := by
  constructor
  · intro h
    obtain ⟨chars, hchars, rfl⟩ := Option.map_eq_some_iff.mp h
    have hsome := Option.isSome_of_eq_some hchars
    have hget := @ByteArray.utf8Encode_get_utf8Decode? data.toByteArray hsome
    rw [Option.get_of_eq_some hsome hchars] at hget
    have hdata : chars.toList.flatMap String.utf8EncodeChar = data := by
      have hlist := congrArg (fun bytes => bytes.data.toList) hget
      simpa [List.utf8Encode] using hlist
    rw [encode_ofChars, hdata]
  · intro h
    obtain ⟨chars, rfl⟩ := exists_ofChars (Option.isSome_of_eq_some h)
    rw [encode_ofChars] at h
    cases h
    have hdecode := @List.utf8Decode?_utf8Encode chars
    rw [List.utf8Encode] at hdecode
    simp [decode, hdecode]

theorem exists_append_of_encode {a b : Text} {x y : List UInt8} (ha : encode a = some x)
    (hb : encode b = some (x ++ y)) : ∃ c, b = a ++ c ∧ encode c = some y := by
  induction a generalizing b x with
  | nil =>
    cases ha
    exact ⟨b, rfl, hb⟩
  | cons p a ih =>
    obtain ⟨char, tail, hchar, htail, rfl⟩ := encode_cons ha
    cases b with
    | nil =>
      have hne := @String.utf8EncodeChar_ne_nil char
      simp [encode, hne] at hb
    | cons q b =>
      obtain ⟨char', tail', hchar', htail', hbytes⟩ := encode_cons hb
      rw [List.append_assoc] at hbytes
      have hsame : char = char' := utf8EncodeChar_inj hbytes
      subst hsame
      have htails := List.append_cancel_left hbytes
      obtain ⟨c, rfl, hc⟩ := ih htail (htails ▸ htail')
      have hpoint : p = q := Fin.ext ((toNat_toChar hchar).symm.trans (toNat_toChar hchar'))
      exact ⟨c, by rw [hpoint]; rfl, hc⟩

def bytesOf (text : Text) : List UInt8 := (encode text).getD []

theorem encode_bytesOf {text : Text} (h : (encode text).isSome) :
    encode text = some (bytesOf text) := by
  obtain ⟨bytes, hbytes⟩ := Option.isSome_iff_exists.mp h
  rw [bytesOf, hbytes, Option.getD_some]

theorem isSome_encode_append {a b : Text} :
    (encode (a ++ b)).isSome ↔ (encode a).isSome ∧ (encode b).isSome := by
  rw [encode_append]
  cases encode a <;> cases encode b <;> simp

theorem bytesOf_append {a b : Text} (h : (encode (a ++ b)).isSome) :
    bytesOf (a ++ b) = bytesOf a ++ bytesOf b := by
  have hparts := isSome_encode_append.mp h
  obtain ⟨x, hx⟩ := Option.isSome_iff_exists.mp hparts.1
  obtain ⟨y, hy⟩ := Option.isSome_iff_exists.mp hparts.2
  simp [bytesOf, encode_append, hx, hy]

theorem bytesOf_inj {a b : Text} (ha : (encode a).isSome) (hb : (encode b).isSome)
    (h : bytesOf a = bytesOf b) : a = b :=
  encode_inj (encode_bytesOf ha) (h ▸ encode_bytesOf hb)

theorem zero_not_mem_bytesOf {text : Text} (hplain : ∀ c ∈ text, c.val ≠ 0) :
    (0 : UInt8) ∉ bytesOf text := by
  unfold bytesOf
  cases h : encode text with
  | none => exact List.not_mem_nil
  | some bytes => exact zero_not_mem_encode h hplain

theorem isSome_encode_of_ascii {text : Text} (h : ∀ c ∈ text, c.val ≤ 0x7F) :
    (encode text).isSome := by
  induction text with
  | nil => rfl
  | cons c rest ih =>
    have hc := h c List.mem_cons_self
    have hrest := ih fun d hd => h d (List.mem_cons_of_mem c hd)
    have hchar : toChar c = some (Char.ofNat c.val) := if_neg (by omega)
    simp [encode, hchar, hrest]

theorem decimalDigits_inj {m n : Nat} (h : decimalDigits m = decimalDigits n) : m = n :=
  calc
    m = Nat.ofDigitChars 10 (decimalDigits m) 0 := Nat.ofDigitChars_ten_toDigits.symm
    _ = Nat.ofDigitChars 10 (decimalDigits n) 0 := by rw [h]
    _ = n := Nat.ofDigitChars_ten_toDigits

theorem mem_integer {i : Int} {c : CodePoint} (h : c ∈ integer i) :
    c.val = 0x2D ∨ (0x30 ≤ c.val ∧ c.val ≤ 0x39) := by
  have hdigit : ∀ d ∈ decimalDigits i.natAbs, 0x30 ≤ d.toNat ∧ d.toNat ≤ 0x39 := by
    intro d hd
    have hd := Nat.isDigit_of_mem_toDigits (by decide) (by decide) hd
    simp only [Char.isDigit, Bool.and_eq_true, decide_eq_true_eq] at hd
    exact ⟨hd.1, hd.2⟩
  unfold integer ofChars at h
  obtain ⟨d, hd, rfl⟩ := List.mem_map.mp h
  show d.toNat = 0x2D ∨ (0x30 ≤ d.toNat ∧ d.toNat ≤ 0x39)
  split at hd
  · rcases List.mem_cons.mp hd with rfl | hd
    · exact Or.inl rfl
    · exact Or.inr (hdigit d hd)
  · exact Or.inr (hdigit d hd)

theorem ofChar_inj {c d : Char} (h : ofChar c = ofChar d) : c = d := by
  have hval : c.toNat = d.toNat := Fin.mk.inj h
  rw [← Char.ofNat_toNat c, hval, Char.ofNat_toNat]

theorem integer_inj {i j : Int} (h : integer i = integer j) : i = j := by
  have hdash : ∀ n : Nat, '-' ∉ decimalDigits n := by
    intro n hmem
    exact absurd (Nat.isDigit_of_mem_toDigits (by decide) (by decide) hmem) (by decide)
  have hchars := List.map_injective_iff.mpr (fun c d => ofChar_inj) h
  split at hchars <;> split at hchars
  · have habs := decimalDigits_inj (List.cons.inj hchars).2
    omega
  · exact absurd (hchars ▸ List.mem_cons_self) (hdash j.natAbs)
  · exact absurd (hchars.symm ▸ List.mem_cons_self) (hdash i.natAbs)
  · have habs := decimalDigits_inj hchars
    omega

end JsonText
