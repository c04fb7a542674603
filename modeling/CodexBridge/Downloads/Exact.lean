import CodexBridge.Downloads.Headers

/-! # Downloads are exact

The body is the part of the content that the answer announces, a range that can be
satisfied is the one asked for, and the integration passes the answer on.
-/

namespace CodexBridge.Downloads

/-! ## Numbers -/

theorem toInt_decimal (n : Nat) : toInt (decimal n) = n := Nat.ofDigitChars_ten_toDigits

theorem isDigit_of_mem_decimal {n : Nat} {c : Char} (h : c ∈ decimal n) : c.isDigit = true :=
  Nat.isDigit_of_mem_toDigits (by omega) (by omega) h

theorem decimal_ne_nil (n : Nat) : decimal n ≠ [] := Nat.toDigits_ne_nil

theorem length_decimal {n : Nat} (h : n < 10000000000000000000) : (decimal n).length ≤ 19 :=
  (Nat.length_toDigits_le_iff (by omega) (by omega)).mpr (by omega)

theorem takeWhile_digits {digits rest : List Char} (h : ∀ c ∈ digits, c.isDigit = true)
    (hrest : ∀ c ∈ rest.head?, c.isDigit = false) :
    (digits ++ rest).takeWhile Char.isDigit = digits ∧
      (digits ++ rest).dropWhile Char.isDigit = rest := by
  have hstop : rest.takeWhile Char.isDigit = [] ∧ rest.dropWhile Char.isDigit = rest := by
    cases rest with
    | nil => exact ⟨rfl, rfl⟩
    | cons c later =>
      have hc := hrest c rfl
      rw [List.takeWhile_cons, List.dropWhile_cons, hc]
      exact ⟨rfl, rfl⟩
  rw [List.takeWhile_append_of_pos h, List.dropWhile_append_of_pos h, hstop.1, hstop.2,
    List.append_nil]
  exact ⟨rfl, rfl⟩

theorem numeral_decimal {n : Nat} (hn : n < 10000000000000000000) {rest : List Char}
    (hrest : ∀ c ∈ rest.head?, c.isDigit = false) :
    numeral (decimal n ++ rest) = some (n, rest) := by
  obtain ⟨htake, hdrop⟩ := takeWhile_digits (fun _ (h : _ ∈ decimal n) =>
    isDigit_of_mem_decimal h) hrest
  have hlength := length_decimal hn
  have hne := decimal_ne_nil n
  have hok : ((decimal n).isEmpty || decide ((decimal n).length > 19)) = false := by
    rw [Bool.or_eq_false_iff, decide_eq_false_iff_not, List.isEmpty_eq_false_iff]
    exact ⟨hne, by omega⟩
  unfold numeral
  simp only [htake, hdrop, toInt_decimal, hok]
  rfl

theorem after_append (start value : List Char) : after start (start ++ value) = some value := by
  unfold after
  rw [if_pos (List.isPrefixOf_iff_prefix.mpr (List.prefix_append _ _)), List.drop_left]

theorem safeContentLength_decimal {n : Nat} (h : n < 9223372036854775808) :
    safeContentLength (some (decimal n)) = some (some (decimal n)) := by
  have hlength := length_decimal (show n < 10000000000000000000 by omega)
  have hne := decimal_ne_nil n
  have hall : (decimal n).all isDecimalChar = true :=
    List.all_eq_true.mpr fun _ hc => isDigit_of_mem_decimal hc
  have hok : ((decimal n).isEmpty || decide ((decimal n).length > 19) || !true ||
      decide (n > maxIdentifierInteger)) = false := by
    simp only [Bool.or_eq_false_iff, decide_eq_false_iff_not, List.isEmpty_eq_false_iff]
    exact ⟨⟨⟨hne, by omega⟩, rfl⟩, by unfold maxIdentifierInteger; omega⟩
  unfold safeContentLength
  simp only [toInt_decimal, hall, hok]
  rfl

def rangeText (start stop total : Nat) : List Char :=
  "bytes ".toList ++ decimal start ++ '-' :: decimal stop ++ '/' :: decimal total

theorem partialContentRange_rangeText {start stop total : Nat}
    (hstart : start < 10000000000000000000) (hstop : stop < 10000000000000000000)
    (htotal : total < 10000000000000000000) :
    partialContentRange (rangeText start stop total) = some (start, stop, total) := by
  have htext : rangeText start stop total =
      "bytes ".toList ++ (decimal start ++ (['-'] ++ (decimal stop ++ (['/'] ++
        (decimal total ++ []))))) := by
    unfold rangeText
    simp only [List.append_assoc, List.cons_append, List.nil_append, List.append_nil]
  have hdash : ∀ (value : List Char), ∀ c ∈ (['-'] ++ value).head?, c.isDigit = false := by
    intro value c hc
    cases hc
    rfl
  have hslash : ∀ (value : List Char), ∀ c ∈ (['/'] ++ value).head?, c.isDigit = false := by
    intro value c hc
    cases hc
    rfl
  unfold partialContentRange
  rw [htext, after_append]
  simp only [Option.bind_eq_bind, Option.bind_some]
  rw [numeral_decimal hstart (hdash _)]
  simp only [Option.bind_some]
  rw [after_append]
  simp only [Option.bind_some]
  rw [numeral_decimal hstop (hslash _)]
  simp only [Option.bind_some]
  rw [after_append]
  simp only [Option.bind_some]
  rw [numeral_decimal htotal (fun c hc => by cases hc)]
  rfl

theorem unsatisfiedContentRange_text {total : Nat} (htotal : total < 10000000000000000000) :
    unsatisfiedContentRange ("bytes */".toList ++ decimal total) = some total := by
  unfold unsatisfiedContentRange
  rw [after_append]
  simp only [Option.bind_eq_bind, Option.bind_some]
  rw [← List.append_nil (decimal total), numeral_decimal htotal (fun c hc => by cases hc)]
  rfl

theorem isEtag_streamSha256Etag (digest : Digest) (s : Snapshot) :
    isEtag (streamSha256Etag digest s) = true := by
  have hlength := digest.length_hexdigest s.content
  have hhex := digest.hex_hexdigest s.content
  unfold isEtag streamSha256Etag
  simp only [Bool.and_eq_true, decide_eq_true_eq]
  refine ⟨⟨⟨?_, rfl⟩, ?_⟩, ?_⟩
  · simp [hlength]
  · rw [List.getLast?_append]
    rfl
  · rw [List.cons_append, List.drop_one, List.tail_cons, List.take_left' hlength, List.all_eq_true]
    exact fun c hc => List.contains_iff_mem.mpr (hhex c hc)

theorem utf8_length_le (text : String) : text.toList.length ≤ (utf8 text).length := by
  unfold utf8
  generalize text.toList = cs
  induction cs with
  | nil => exact le_refl _
  | cons c rest ih =>
    have hc := c.utf8Size_pos
    rw [List.flatMap_cons, List.length_append, String.length_utf8EncodeChar, List.length_cons]
    omega

theorem decodeUtf8_utf8 (text : String) : decodeUtf8 (utf8 text) = some text := by
  have hbytes : (utf8 text).toByteArray = text.toByteArray :=
    String.utf8Encode_toList
  unfold decodeUtf8 String.fromUTF8?
  rw [dif_pos (hbytes ▸ text.isValidUTF8)]
  exact congrArg some (String.toByteArray_inj.mp hbytes)

theorem prefix_stripDots (value : List Char) :
    stripDots value <+: value.dropWhile fun c => c = '.' || c = '_' := by
  unfold stripDots
  rw [← List.reverse_suffix, List.reverse_reverse]
  exact List.dropWhile_suffix _

theorem head_stripDots {value : List Char} {c : Char} (h : (stripDots value).head? = some c) :
    c ≠ '.' := by
  have hpre := prefix_stripDots value
  cases hs : stripDots value with
  | nil =>
    rw [hs] at h
    cases h
  | cons c' rest =>
    rw [hs] at h hpre
    cases h
    obtain ⟨later, hlater⟩ := hpre
    have hhead := List.head?_dropWhile_not (fun c => decide (c = '.') || decide (c = '_')) value
    rw [← hlater] at hhead
    intro hc
    subst hc
    cases hhead

/-- The fallback is made of a few characters and does not begin with a dot. -/
theorem fallbackName_spec (filename : String) (h : filename.toList.length ≤ 255) :
    (∀ c ∈ fallbackName filename, isFallbackChar c = true) ∧
      1 ≤ (fallbackName filename).length ∧ (fallbackName filename).length ≤ 255 ∧
        (fallbackName filename).head? ≠ some '.' := by
  unfold fallbackName
  simp only
  split
  · refine ⟨List.all_eq_true.mp ?_, by decide, by decide, by decide⟩
    decide
  rename_i hne
  have hpre := (prefix_stripDots (filename.toList.map fun c =>
    if isFallbackChar c then c else '_'))
  have hsub := hpre.sublist.trans (List.dropWhile_suffix _).sublist
  refine ⟨fun c hc => ?_, ?_, ?_, fun hhead => head_stripDots hhead rfl⟩
  · obtain ⟨c', _, rfl⟩ := List.mem_map.mp (hsub.subset hc)
    split
    · assumption
    · rfl
  · rw [List.isEmpty_iff] at hne
    exact List.length_pos_of_ne_nil hne
  · have hlen := hsub.length_le
    rw [List.length_map] at hlen
    omega

theorem takeWhile_fallback {fallback : List Char} (rest : List Char)
    (h : ∀ c ∈ fallback, isFallbackChar c = true) :
    (fallback ++ '"' :: rest).takeWhile isFallbackChar = fallback ∧
      (fallback ++ '"' :: rest).dropWhile isFallbackChar = '"' :: rest := by
  rw [List.takeWhile_append_of_pos h, List.dropWhile_append_of_pos h,
    List.takeWhile_cons_of_neg (by decide), List.dropWhile_cons_of_neg (by decide),
    List.append_nil]
  exact ⟨rfl, rfl⟩

theorem quote_all {p : Char → Bool}
    (hsafe : ∀ n < 256, Percent.isUnreserved (UInt8.ofNat n) = true → p (Char.ofNat n) = true)
    (hpercent : p '%' = true) (hhex : ∀ c ∈ "0123456789ABCDEF".toList, p c = true)
    (filename : String) : (quote filename).all p = true :=
  Percent.all_encode hsafe hpercent hhex _

theorem isEncodedChar_quote (filename : String) : (quote filename).all isEncodedChar = true :=
  quote_all (by decide +kernel) (by decide) (List.all_eq_true.mp (by decide)) filename

/-- The integration reads the two names of a disposition back. -/
theorem matchDisposition_attachmentDisposition {filename : String} (hne : utf8 filename ≠ [])
    (hfits : (utf8 filename).length ≤ 255) :
    matchDisposition (attachmentDisposition filename) =
      some (fallbackName filename, quote filename) := by
  obtain ⟨hall, hpos, hle, _⟩ := fallbackName_spec filename
    ((utf8_length_le filename).trans hfits)
  obtain ⟨htake, hdrop⟩ := takeWhile_fallback
    ("; filename*=UTF-8''".toList ++ quote filename) hall
  have hlength := Percent.length_encode (utf8 filename)
  have hquote : (quote filename).length = (Percent.encode (utf8 filename)).length := rfl
  have hnonempty := List.length_pos_of_ne_nil hne
  have htext : attachmentDisposition filename = "attachment; filename=\"".toList ++
      (fallbackName filename ++ '"' :: ("; filename*=UTF-8''".toList ++ quote filename)) := by
    unfold attachmentDisposition
    simp only [List.append_assoc]
    rfl
  have hafter : after "\"; filename*=UTF-8''".toList
      ('"' :: ("; filename*=UTF-8''".toList ++ quote filename)) = some (quote filename) :=
    after_append _ _
  unfold matchDisposition
  rw [htext, after_append]
  simp only [Option.bind_eq_bind, Option.bind_some, htake, hdrop, hafter]
  rw [if_pos ⟨hpos, hle, by omega, by omega, isEncodedChar_quote filename⟩]

theorem not_control_of_fallback {c : Char} (h : isFallbackChar c = true) :
    (c.toNat < 32 || c.toNat = 127) = false := by
  simp only [isFallbackChar, Char.isAlphanum, Char.isDigit] at h
  delta Char.isAlpha Char.isUpper Char.isLower at h
  simp only [Bool.or_eq_true, Bool.and_eq_true, decide_eq_true_eq, ge_iff_le,
    UInt32.le_iff_toNat_le] at h
  simp only [Bool.or_eq_false_iff, decide_eq_false_iff_not]
  have hnat : c.toNat = c.val.toNat := rfl
  have hA : 'A'.val.toNat = 65 := rfl
  have hZ : 'Z'.val.toNat = 90 := rfl
  have ha : 'a'.val.toNat = 97 := rfl
  have hz : 'z'.val.toNat = 122 := rfl
  have h0 : '0'.val.toNat = 48 := rfl
  have h9 : '9'.val.toNat = 57 := rfl
  rcases h with ((h | rfl) | rfl) | rfl
  · omega
  · exact ⟨by decide, by decide⟩
  · exact ⟨by decide, by decide⟩
  · exact ⟨by decide, by decide⟩

theorem containsControl_append (a b : List Char) :
    containsControl (a ++ b) = (containsControl a || containsControl b) := List.any_append

theorem containsControl_attachmentDisposition {filename : String}
    (hfits : (utf8 filename).length ≤ 255) :
    containsControl (attachmentDisposition filename) = false := by
  obtain ⟨hall, _⟩ := fallbackName_spec filename ((utf8_length_le filename).trans hfits)
  have hfallback : containsControl (fallbackName filename) = false := by
    unfold containsControl
    rw [List.any_eq_false]
    intro c hc
    rw [not_control_of_fallback (hall c hc)]
    exact Bool.false_ne_true
  have hquote : containsControl (quote filename) = false := by
    have hq := quote_all (p := fun c => !(c.toNat < 32 || c.toNat = 127)) (by decide +kernel)
      (by decide) (List.all_eq_true.mp (by decide)) filename
    unfold containsControl
    rw [List.any_eq_false]
    intro c hc
    have hc' := List.all_eq_true.mp hq c hc
    simpa using hc'
  unfold attachmentDisposition
  rw [containsControl_append, containsControl_append, containsControl_append, hfallback, hquote]
  rfl

section

variable {u : Unicode}

/-- The grammar leaves a name no backslash, and its only component is the name. -/
theorem StoredName.safe (n : StoredName u) : n.name.toList ≠ [] ∧ n.name.toList ≠ ['.'] ∧
    n.name.toList ≠ ['.', '.'] ∧ '\\' ∉ n.name.toList ∧ containsControl n.name.toList = false := by
  have hnormal := n.normal
  have hslash := n.no_slash
  generalize n.name.toList = value at hnormal hslash
  unfold normalizePortableRelativePath at hnormal
  split at hnormal
  · cases hnormal
  rename_i hempty
  split at hnormal
  · cases hnormal
  rename_i hother
  split at hnormal
  · cases hnormal
  rename_i hdot
  rcases Option.ite_none_left_eq_some.mp hnormal with ⟨_, hnormal⟩
  rcases Option.ite_none_left_eq_some.mp hnormal with ⟨_, hnormal⟩
  dsimp only at hnormal
  rcases Option.ite_none_left_eq_some.mp hnormal with ⟨_, hnormal⟩
  split at hnormal
  · rename_i hparts
    have hback : '\\' ∉ value := by
      intro hmem
      rw [List.intercalate_splitOn] at hnormal
      have hin : '/' ∈ value.map fun c => if c = '\\' then '/' else c :=
        List.mem_map.mpr ⟨'\\', hmem, rfl⟩
      rw [Option.some.inj hnormal] at hin
      exact hslash hin
    refine ⟨fun hnil => ?_, hdot, fun hdots => ?_, hback, ?_⟩
    · subst hnil
      exact hempty rfl
    · subst hdots
      have hcomponent : validPortableComponent u ['.', '.'] = false := rfl
      have hsplit : (['.', '.'].map fun c => if c = '\\' then '/' else c).splitOn '/' =
          [['.', '.']] := by decide
      rw [hsplit] at hparts
      simp [hcomponent] at hparts
    · unfold containsControl
      rw [List.any_eq_false]
      intro c hc hcontrol
      rw [Bool.or_eq_true, decide_eq_true_eq, decide_eq_true_eq] at hcontrol
      exact hother (List.any_eq_true.mpr ⟨c, hc, u.isOther_control c hcontrol⟩)
  · cases hnormal

theorem StoredName.utf8_ne_nil (n : StoredName u) : utf8 n.name ≠ [] := by
  intro hnil
  have hle := utf8_length_le n.name
  rw [hnil] at hle
  exact n.safe.1 (List.length_eq_zero_iff.mp (Nat.le_zero.mp hle))

theorem StoredName.decodedName (n : StoredName u) :
    Downloads.decodedName (quote n.name) = some n.name := by
  obtain ⟨hne, hdot, hdots, hback, hcontrol⟩ := n.safe
  have hslash := n.no_slash
  have hfits := n.fits
  have hdecode : Percent.decode (quote n.name) = utf8 n.name := Percent.decode_encode _
  unfold Downloads.decodedName
  simp only [hdecode, decodeUtf8_utf8]
  rw [if_neg]
  rintro (h | h | h | h | h | h | h | h)
  · exact hne h
  · exact hdot h
  · exact hdots h
  · exact hslash h
  · exact hback h
  · rw [hcontrol] at h
    cases h
  · omega
  · exact h rfl

theorem StoredName.safeAttachmentDisposition (n : StoredName u) :
    Downloads.safeAttachmentDisposition (some (attachmentDisposition n.name)) =
      attachmentDisposition n.name := by
  obtain ⟨_, _, _, hhead⟩ := fallbackName_spec n.name ((utf8_length_le n.name).trans n.fits)
  have hmatch := matchDisposition_attachmentDisposition n.utf8_ne_nil n.fits
  have hcontrol := containsControl_attachmentDisposition n.fits
  unfold Downloads.safeAttachmentDisposition
  simp only [hcontrol, hmatch, n.decodedName]
  rw [if_neg (by decide), if_neg]
  rintro (h | h | h)
  · rw [h] at hhead
    exact hhead rfl
  · rw [h] at hhead
    exact hhead rfl
  · exact hhead h

end

structure Numeral where
  digits : List Char
  ne_nil : digits ≠ []
  isDigit : ∀ c ∈ digits, c.isDigit = true

def Numeral.value (n : Numeral) : Nat := toInt n.digits

inductive RangeSpec where
  | between (first last : Numeral)
  | onward (first : Numeral)
  | suffix (length : Numeral)

def RangeSpec.text : RangeSpec → List Char
  | .between first last => "bytes=".toList ++ (first.digits ++ '-' :: last.digits)
  | .onward first => "bytes=".toList ++ (first.digits ++ ['-'])
  | .suffix length => "bytes=".toList ++ '-' :: length.digits

def RangeSpec.Satisfiable (size : Nat) : RangeSpec → Prop
  | .between first last => first.value ≤ last.value ∧ first.value < size
  | .onward first => first.value < size
  | .suffix length => 0 < length.value ∧ 0 < size

def RangeSpec.bounds (size : Nat) : RangeSpec → Nat × Nat
  | .between first last => (first.value, min last.value (size - 1))
  | .onward first => (first.value, size - 1)
  | .suffix length => (size - min length.value size, size - 1)

def RangeSpec.Bounded : RangeSpec → Prop
  | .between first last => first.digits.length ≤ 19 ∧ last.digits.length ≤ 19
  | .onward first => first.digits.length ≤ 19
  | .suffix length => length.digits.length ≤ 19

theorem Numeral.boundedDecimal (n : Numeral) (h : n.digits.length ≤ 19) :
    Downloads.boundedDecimal n.digits = true := by
  unfold Downloads.boundedDecimal
  rw [Bool.and_eq_true, Bool.and_eq_true]
  refine ⟨⟨?_, decide_eq_true h⟩, List.all_eq_true.mpr n.isDigit⟩
  rw [List.isEmpty_eq_false_iff.mpr n.ne_nil]
  rfl

theorem digits_ne_separator {digits : List Char} (h : ∀ c ∈ digits, c.isDigit = true) {sep : Char}
    (hsep : sep.isDigit = false) : sep ∉ digits := by
  intro hmem
  rw [h sep hmem] at hsep
  cases hsep

theorem parseSingleRange_digits {first last : List Char} (hfirst : ∀ c ∈ first, c.isDigit = true)
    (hlast : ∀ c ∈ last, c.isDigit = true) {size : Nat} (hsize : 0 < size) :
    parseSingleRange ("bytes=".toList ++ (first ++ '-' :: last)) size =
      if first.isEmpty && last.isEmpty then none
      else if first.isEmpty then
        if !boundedDecimal last || toInt last = 0 then none
        else some (size - min (toInt last) size, size - 1)
      else if !boundedDecimal first || (!last.isEmpty && !boundedDecimal last) then none
      else
        if toInt first ≥ size ||
            (if last.isEmpty then size - 1 else toInt last) < toInt first then none
        else some (toInt first,
          min (if last.isEmpty then size - 1 else toInt last) (size - 1)) := by
  have hdash := digits_ne_separator hfirst (show '-'.isDigit = false from rfl)
  have hdash' := digits_ne_separator hlast (show '-'.isDigit = false from rfl)
  have hcomma : ("bytes=".toList ++ (first ++ '-' :: last)).count ',' = 0 := by
    refine List.count_eq_zero.mpr fun hmem => ?_
    rcases List.mem_append.mp hmem with hmem | hmem
    · exact absurd hmem (by decide)
    rcases List.mem_append.mp hmem with hmem | hmem
    · exact digits_ne_separator hfirst (show ','.isDigit = false from rfl) hmem
    rcases List.mem_cons.mp hmem with hmem | hmem
    · cases hmem
    · exact digits_ne_separator hlast (show ','.isDigit = false from rfl) hmem
  have hpre : "bytes=".toList.isPrefixOf ("bytes=".toList ++ (first ++ '-' :: last)) = true :=
    List.isPrefixOf_iff_prefix.mpr (List.prefix_append _ _)
  have hdrop : ("bytes=".toList ++ (first ++ '-' :: last)).drop 6 = first ++ '-' :: last := rfl
  have hcount : (first ++ '-' :: last).count '-' = 1 := by
    rw [List.count_append, List.count_cons_self, List.count_eq_zero.mpr hdash,
      List.count_eq_zero.mpr hdash']
  have hkeep : ∀ c ∈ first, decide (c ≠ '-') = true := fun c hc =>
    decide_eq_true fun heq => hdash (heq ▸ hc)
  have htake : (first ++ '-' :: last).takeWhile (· ≠ '-') = first := by
    rw [List.takeWhile_append_of_pos hkeep, List.takeWhile_cons_of_neg (by decide),
      List.append_nil]
  have hrest : ((first ++ '-' :: last).dropWhile (· ≠ '-')).drop 1 = last := by
    rw [List.dropWhile_append_of_pos hkeep, List.dropWhile_cons_of_neg (by decide)]
    rfl
  have hok : (!"bytes=".toList.isPrefixOf ("bytes=".toList ++ (first ++ '-' :: last)) ||
      decide (("bytes=".toList ++ (first ++ '-' :: last)).count ',' ≠ 0) ||
      decide (size = 0)) = false := by
    rw [hpre, hcomma, decide_eq_false (show size ≠ 0 by omega)]
    rfl
  unfold parseSingleRange
  rw [hok, if_neg Bool.false_ne_true]
  simp only [hdrop, hcount, htake, hrest]
  rfl

theorem parseSingleRange_text {spec : RangeSpec} {size : Nat} (hspec : spec.Satisfiable size)
    (hbounded : spec.Bounded) : parseSingleRange spec.text size = some (spec.bounds size) := by
  cases spec with
  | between first last =>
    obtain ⟨hle, hlt⟩ := hspec
    have hf := List.isEmpty_eq_false_iff.mpr first.ne_nil
    have hl := List.isEmpty_eq_false_iff.mpr last.ne_nil
    have hfit : (decide (toInt first.digits ≥ size) ||
        decide (toInt last.digits < toInt first.digits)) = false := by
      rw [Bool.or_eq_false_iff, decide_eq_false_iff_not, decide_eq_false_iff_not]
      exact ⟨not_le.mpr hlt, not_lt.mpr hle⟩
    unfold RangeSpec.text
    rw [parseSingleRange_digits first.isDigit last.isDigit (by omega), hf, hl,
      first.boundedDecimal hbounded.1, last.boundedDecimal hbounded.2]
    simp only [Bool.false_eq_true, if_false, hfit]
    rfl
  | onward first =>
    have hlt : toInt first.digits < size := hspec
    have hf := List.isEmpty_eq_false_iff.mpr first.ne_nil
    have hfit : (decide (toInt first.digits ≥ size) ||
        decide (size - 1 < toInt first.digits)) = false := by
      rw [Bool.or_eq_false_iff, decide_eq_false_iff_not, decide_eq_false_iff_not]
      exact ⟨not_le.mpr hlt, by omega⟩
    have hparse := parseSingleRange_digits first.isDigit
      (fun c (hc : c ∈ ([] : List Char)) => by cases hc) (show 0 < size by omega)
    unfold RangeSpec.text
    rw [hparse, hf, first.boundedDecimal hbounded]
    simp only [List.isEmpty_nil, if_true, Bool.false_eq_true, if_false, hfit, min_self]
    rfl
  | suffix length =>
    obtain ⟨hpos, hsize⟩ := hspec
    have hl := List.isEmpty_eq_false_iff.mpr length.ne_nil
    have hparse := parseSingleRange_digits
      (fun c (hc : c ∈ ([] : List Char)) => by cases hc) length.isDigit hsize
    have hne : (!true || decide (toInt length.digits = 0)) = false := by
      rw [Bool.or_eq_false_iff, decide_eq_false_iff_not]
      exact ⟨rfl, Nat.pos_iff_ne_zero.mp hpos⟩
    unfold RangeSpec.text
    rw [List.nil_append] at hparse
    rw [hparse, hl, length.boundedDecimal hbounded]
    simp only [List.isEmpty_nil, hne]
    rfl

theorem parseSingleRange_within {value : List Char} {size start stop : Nat}
    (h : parseSingleRange value size = some (start, stop)) : start ≤ stop ∧ stop < size := by
  unfold parseSingleRange at h
  rcases Option.ite_none_left_eq_some.mp h with ⟨hok, h⟩
  have hsize : 0 < size := by
    simp only [Bool.or_eq_true, decide_eq_true_eq, not_or] at hok
    omega
  dsimp only at h
  rcases Option.ite_none_left_eq_some.mp h with ⟨_, h⟩
  split at h
  · cases h
  split at h
  · split at h
    · cases h
    rename_i hzero
    rw [Bool.or_eq_true, not_or, decide_eq_true_eq] at hzero
    cases h
    omega
  split at h
  · cases h
  split at h
  · rcases Option.ite_none_left_eq_some.mp h with ⟨hfit, h⟩
    rw [Bool.or_eq_true, not_or, decide_eq_true_eq, decide_eq_true_eq] at hfit
    cases h
    omega
  · rcases Option.ite_none_left_eq_some.mp h with ⟨hfit, h⟩
    rw [Bool.or_eq_true, not_or, decide_eq_true_eq, decide_eq_true_eq] at hfit
    cases h
    omega

/-! ## Answers -/

def dispositionFilename (value : List Char) : Option String :=
  (matchDisposition value).bind fun names => decodeUtf8 (Percent.decode names.2)

/-- An answer is exact for the requests of ranges in `asked`. -/
structure Exact (asked : RangeSpec → Prop) (digest : Digest) (s : Snapshot) (filename : String)
    (rangeHeader ifRange : Option (List Char)) (r : Response) : Prop where
  status : r.status = 200 ∨ r.status = 206 ∨ r.status = 416
  whole : r.status = 200 → r.body = s.content ∧ r.headers.contentRange = none ∧
    r.headers.contentLength = some (decimal s.content.length)
  ranged : r.status = 206 → ∃ start stop, start ≤ stop ∧ stop < s.content.length ∧
    r.headers.contentRange = some (rangeText start stop s.content.length) ∧
      r.headers.contentLength = some (decimal (stop - start + 1)) ∧
        r.body = (s.content.drop start).take (stop - start + 1)
  refused : r.status = 416 → r.body = [] ∧
    r.headers.contentRange = some ("bytes */".toList ++ decimal s.content.length)
  satisfied : ∀ spec, asked spec → rangeHeader = some spec.text →
    (ifRange = none ∨ ifRange = some (streamSha256Etag digest s)) →
      spec.Satisfiable s.content.length → r.status = 206 ∧
        r.body = (s.content.drop (spec.bounds s.content.length).1).take
          ((spec.bounds s.content.length).2 - (spec.bounds s.content.length).1 + 1)
  changed : ∀ tag, ifRange = some tag → tag ≠ streamSha256Etag digest s → r.status = 200
  /-- The integration passes the answer on. -/
  relayed : ∃ h, safeDownloadHeaders r.status r.headers = .ok h ∧
    h.contentLength = r.headers.contentLength ∧ h.contentRange = r.headers.contentRange ∧
      h.etag = some (streamSha256Etag digest s) ∧
        h.contentDisposition.bind dispositionFilename = some filename

section

variable {digest : Digest} {s : Snapshot} {u : Unicode} {n : StoredName u}
  {rangeHeader ifRange : Option (List Char)}

theorem StoredName.dispositionFilename (n : StoredName u) :
    Downloads.dispositionFilename (attachmentDisposition n.name) = some n.name := by
  unfold Downloads.dispositionFilename
  rw [matchDisposition_attachmentDisposition n.utf8_ne_nil n.fits, Option.bind_some]
  change decodeUtf8 (Percent.decode (Percent.encode (utf8 n.name))) = _
  rw [Percent.decode_encode, decodeUtf8_utf8]

theorem relayed_of_checked {headers : Headers} {status length : Nat}
    (hstatus : status = 200 ∨ status = 206 ∨ status = 416)
    (hdisposition : headers.contentDisposition = some (attachmentDisposition n.name))
    (hlength : headers.contentLength = some (decimal length)) (hfits : length < 9223372036854775808)
    (hetag : headers.etag = some (streamSha256Etag digest s))
    (hchecked : checkedLength status headers.contentRange (some (decimal length)) =
      some (some (decimal length))) :
    ∃ h, safeDownloadHeaders status headers = .ok h ∧
      h.contentLength = headers.contentLength ∧ h.contentRange = headers.contentRange ∧
        h.etag = some (streamSha256Etag digest s) ∧
          h.contentDisposition.bind dispositionFilename = some n.name := by
  have hknown : ¬ (status ≠ 200 ∧ status ≠ 206 ∧ status ≠ 416) := by omega
  unfold safeDownloadHeaders
  rw [if_neg hknown, hlength, safeContentLength_decimal hfits]
  simp only [hchecked, hetag, Option.any_some, isEtag_streamSha256Etag, Bool.not_true,
    Bool.false_eq_true, if_false]
  refine ⟨_, rfl, rfl, rfl, rfl, ?_⟩
  simp only [hdisposition, n.safeAttachmentDisposition, Option.bind_some]
  exact n.dispositionFilename

theorem snapshotDownloadResponse_cases (digest : Digest) (s : Snapshot) (filename : String)
    (rangeHeader ifRange : Option (List Char)) :
    let etag := streamSha256Etag digest s
    let r := snapshotDownloadResponse digest s filename rangeHeader ifRange
    (selectRange etag s.sizeBytes rangeHeader ifRange = none ∧
        (ifRange = none ∨ ifRange = some etag) ∧
        r.status = 416 ∧ r.body = [] ∧ r.headers =
          { baseHeaders digest s filename with
            contentRange := some ("bytes */".toList ++ decimal s.sizeBytes)
            contentLength := some (decimal 0) }) ∨
      (selectRange etag s.sizeBytes rangeHeader ifRange = none ∧
        r.status = 200 ∧ r.body = s.content ∧ r.headers =
          { baseHeaders digest s filename with
            contentLength := some (decimal s.sizeBytes) }) ∨
      ∃ start stop, selectRange etag s.sizeBytes rangeHeader ifRange = some (start, stop) ∧
        r.status = 206 ∧ r.body = (s.content.drop start).take (stop - start + 1) ∧
        r.headers =
          { baseHeaders digest s filename with
            contentLength := some (decimal (stop - start + 1))
            contentRange := some (rangeText start stop s.sizeBytes) } := by
  intro etag r
  cases hselect : selectRange etag s.sizeBytes rangeHeader ifRange with
  | none =>
    by_cases hrefuse : ((rangeHeader.any fun value => !value.isEmpty) &&
        (decide (ifRange = none) || decide (ifRange = some etag))) = true
    · refine .inl ⟨rfl, ?_, ?_⟩
      · rw [Bool.and_eq_true, Bool.or_eq_true, decide_eq_true_eq, decide_eq_true_eq] at hrefuse
        exact hrefuse.2
      have hr : r = _ := if_pos (by
        rw [hselect, decide_eq_true rfl, Bool.and_true]
        exact hrefuse)
      rw [hr]
      exact ⟨rfl, rfl, rfl⟩
    · refine .inr (.inl ⟨rfl, ?_⟩)
      have hr : r = _ := if_neg (by
        rw [hselect, decide_eq_true rfl, Bool.and_true]
        exact hrefuse)
      have hnone : selectRange (streamSha256Etag digest s) s.sizeBytes rangeHeader ifRange =
          none := hselect
      rw [hr]
      simp only [hnone]
      refine ⟨trivial, ?_, trivial⟩
      rw [streamAndClose_eq, List.drop_zero]
      exact List.take_length
  | some range =>
    obtain ⟨start, stop⟩ := range
    refine .inr (.inr ⟨start, stop, rfl, ?_⟩)
    have hr : r = _ := if_neg (by
      rw [hselect, decide_eq_false (by simp), Bool.and_false, Bool.false_and]
      exact Bool.false_ne_true)
    have hsome : selectRange (streamSha256Etag digest s) s.sizeBytes rangeHeader ifRange =
        some (start, stop) := hselect
    rw [hr]
    simp only [hsome]
    exact ⟨trivial, streamAndClose_eq s start (stop - start + 1), rfl⟩

theorem selectRange_within {etag : List Char} {size start stop : Nat}
    (h : selectRange etag size rangeHeader ifRange = some (start, stop)) :
    start ≤ stop ∧ stop < size := by
  unfold selectRange at h
  split at h
  · cases h
  split at h
  · exact parseSingleRange_within h
  · cases h

theorem selectRange_changed {etag tag : List Char} {size : Nat} (htag : ifRange = some tag)
    (hne : tag ≠ etag) : selectRange etag size rangeHeader ifRange = none := by
  unfold selectRange
  split
  · rfl
  rw [if_neg]
  rw [htag]
  simp [hne]

theorem selectRange_text {etag : List Char} {size : Nat} {spec : RangeSpec}
    (hrange : rangeHeader = some spec.text) (hif : ifRange = none ∨ ifRange = some etag)
    (hspec : spec.Satisfiable size) (hbounded : spec.Bounded) :
    selectRange etag size rangeHeader ifRange = some (spec.bounds size) := by
  have hne : spec.text.isEmpty = false := by
    cases spec <;> rfl
  have hok : (decide (ifRange = some etag) || decide (ifRange = none)) = true := by
    rw [Bool.or_eq_true, decide_eq_true_eq, decide_eq_true_eq]
    exact hif.symm
  unfold selectRange
  rw [hrange]
  simp only [hne, hok]
  exact parseSingleRange_text hspec hbounded

/-- Downloads are exact for every file, stored name, range and tag. -/
theorem snapshotDownloadResponse_exact (digest : Digest) (s : Snapshot) (n : StoredName u)
    (rangeHeader ifRange : Option (List Char)) :
    Exact RangeSpec.Bounded digest s n.name rangeHeader ifRange
      (snapshotDownloadResponse digest s n.name rangeHeader ifRange) := by
  have hcases := snapshotDownloadResponse_cases digest s n.name rangeHeader ifRange
  have hsize : s.sizeBytes < 9223372036854775808 := s.isOffset
  dsimp only at hcases
  rcases hcases with ⟨hselect, hif, hstatus, hbody, hheaders⟩ | ⟨hselect, hstatus, hbody,
    hheaders⟩ |
    ⟨start, stop, hselect, hstatus, hbody, hheaders⟩
  · refine ⟨.inr (.inr hstatus), fun h => by omega, fun h => by omega,
      fun _ => ⟨hbody, by rw [hheaders]; rfl⟩, ?_, ?_, ?_⟩
    · intro spec hspec hrange hif' hsat
      have hparsed : selectRange (streamSha256Etag digest s) s.sizeBytes rangeHeader ifRange =
          some (spec.bounds s.content.length) := selectRange_text hrange hif' hsat hspec
      rw [hparsed] at hselect
      cases hselect
    · intro tag htag hne
      rcases hif with h | h
      · rw [h] at htag
        cases htag
      · rw [h] at htag
        cases htag
        exact absurd rfl hne
    · rw [hstatus, hheaders]
      refine relayed_of_checked (.inr (.inr rfl)) rfl rfl (by omega) rfl ?_
      simp only [checkedLength, Option.bind_some,
        unsatisfiedContentRange_text (show s.sizeBytes < 10000000000000000000 by omega)]
      rfl
  · refine ⟨.inl hstatus, fun _ => ⟨hbody, by rw [hheaders]; rfl, by rw [hheaders]; rfl⟩,
      fun h => by omega, fun h => by omega, ?_, fun _ _ _ => hstatus, ?_⟩
    · intro spec hspec hrange hif' hsat
      have hparsed : selectRange (streamSha256Etag digest s) s.sizeBytes rangeHeader ifRange =
          some (spec.bounds s.content.length) := selectRange_text hrange hif' hsat hspec
      rw [hparsed] at hselect
      cases hselect
    · rw [hstatus, hheaders]
      exact relayed_of_checked (.inl rfl) rfl rfl hsize rfl rfl
  · obtain ⟨hle, hlt⟩ := selectRange_within hselect
    refine ⟨.inr (.inl hstatus), fun h => by omega,
      fun _ => ⟨start, stop, hle, hlt, by rw [hheaders]; rfl, by rw [hheaders], hbody⟩,
      fun h => by omega, ?_, ?_, ?_⟩
    · intro spec hspec hrange hif' hsat
      have hparsed : selectRange (streamSha256Etag digest s) s.sizeBytes rangeHeader ifRange =
          some (spec.bounds s.content.length) := selectRange_text hrange hif' hsat hspec
      rw [hparsed] at hselect
      have hbounds := Option.some.inj hselect
      have hfirst : (spec.bounds s.content.length).1 = start := congrArg Prod.fst hbounds
      have hlast : (spec.bounds s.content.length).2 = stop := congrArg Prod.snd hbounds
      rw [hfirst, hlast]
      exact ⟨hstatus, hbody⟩
    · intro tag htag hne
      rw [selectRange_changed htag hne] at hselect
      cases hselect
    · rw [hstatus, hheaders]
      refine relayed_of_checked (.inr (.inl rfl)) rfl rfl (by omega) rfl ?_
      have hrange : partialContentRange (rangeText start stop s.sizeBytes) =
          some (start, stop, s.sizeBytes) :=
        partialContentRange_rangeText (by omega) (by omega) (by omega)
      have hfit : ¬ (start > stop ∨ stop ≥ s.sizeBytes ∨ stop - start + 1 ≠ stop - start + 1) := by
        omega
      simp only [checkedLength, if_true, Option.bind_some, hrange, toInt_decimal]
      exact if_neg hfit

end

/-- A file of one byte, asked for the bytes from 0 to ten quintillions. -/
def oneByte : Snapshot := ⟨[0], by decide⟩

def zeroDigest : Digest where
  hexdigest _ := List.replicate 64 '0'
  length_hexdigest _ := rfl
  hex_hexdigest _ c hc := by
    rw [List.eq_of_mem_replicate hc]
    decide

def longRange : RangeSpec :=
  .between ⟨['0'], by decide, List.all_eq_true.mp (by decide)⟩
    ⟨"10000000000000000000".toList, by decide, List.all_eq_true.mp (by decide)⟩

/-- A range with a number of 20 digits is refused, although the file satisfies it. -/
theorem longRange_refused :
    ¬ Exact (fun _ => True) zeroDigest oneByte "a" (some longRange.text) none
      (snapshotDownloadResponse zeroDigest oneByte "a" (some longRange.text) none) := by
  intro h
  have hle : toInt ['0'] ≤ toInt "10000000000000000000".toList := by decide +kernel
  have hlt : toInt ['0'] < 1 := by decide +kernel
  have hsat : longRange.Satisfiable oneByte.content.length := ⟨hle, hlt⟩
  have hstatus := (h.satisfied longRange trivial rfl (.inl rfl) hsat).1
  have hrefused : (snapshotDownloadResponse zeroDigest oneByte "a" (some longRange.text)
      none).status = 416 := by decide +kernel
  rw [hrefused] at hstatus
  cases hstatus

end CodexBridge.Downloads
