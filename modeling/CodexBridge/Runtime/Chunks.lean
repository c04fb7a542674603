import CodexBridge.Library.Utf8

/-! # Text in chunks

The text of a notification is emitted in chunks of so many bytes in UTF-8. A chunk ends
where the code points do: its end goes back byte by byte until what it holds can be decoded.
-/

namespace CodexBridge.Runtime

open JsonText

/-! ## `_raw_chunks` -/

inductive ChunkError where
  /-- `UnicodeEncodeError`. -/
  | encode
  /-- `RuntimeProtocolMismatchError`. -/
  | protocolMismatch
  deriving DecidableEq

/-- The inner loop, with `end` at `offset + width`: the chunk and its end, if there is one. -/
def lastChunk (encoded : List UInt8) (offset : Nat) : Nat → Option (Text × Nat)
  | 0 => none
  | width + 1 =>
    match decode ((encoded.drop offset).take (width + 1)) with
    | some chunk => some (chunk, offset + (width + 1))
    | none => lastChunk encoded offset width

theorem lastChunk_eq_some {encoded : List UInt8} {offset width stop : Nat} {chunk : Text}
    (h : lastChunk encoded offset width = some (chunk, stop)) :
    ∃ k, 0 < k ∧ k ≤ width ∧ stop = offset + k ∧
      decode ((encoded.drop offset).take k) = some chunk := by
  induction width with
  | zero => cases h
  | succ width ih =>
    rw [lastChunk] at h
    cases hd : decode ((encoded.drop offset).take (width + 1)) with
    | some text =>
      rw [hd] at h
      cases h
      exact ⟨width + 1, by omega, Nat.le_refl _, rfl, hd⟩
    | none =>
      rw [hd] at h
      obtain ⟨k, hpos, hle, hstop, hchunk⟩ := ih h
      exact ⟨k, hpos, by omega, hstop, hchunk⟩

theorem isSome_lastChunk {encoded : List UInt8} {offset k : Nat} (width : Nat) (hpos : 0 < k)
    (hle : k ≤ width) (h : (decode ((encoded.drop offset).take k)).isSome) :
    (lastChunk encoded offset width).isSome := by
  induction width with
  | zero => omega
  | succ width ih =>
    rw [lastChunk]
    cases hd : decode ((encoded.drop offset).take (width + 1)) with
    | some text => rfl
    | none =>
      have hne : k ≠ width + 1 := by
        rintro rfl
        rw [hd] at h
        cases h
      exact ih (by omega)

/-- The outer loop, from an offset on. -/
def chunksFrom (encoded : List UInt8) (maxBytes offset : Nat) : Except ChunkError (List Text) :=
  if offset < encoded.length then
    match _hlast : lastChunk encoded offset (min encoded.length (offset + maxBytes) - offset) with
    | none => .error .protocolMismatch
    | some (chunk, stop) => (chunksFrom encoded maxBytes stop).map (chunk :: ·)
  else .ok []
termination_by encoded.length - offset
decreasing_by
  obtain ⟨k, hpos, _, hstop, _⟩ := lastChunk_eq_some _hlast
  omega

/-- `_raw_chunks`; a value that is no string has no text. -/
def rawChunks (value : Option Text) (maxBytes : Nat) : Except ChunkError (List Text) :=
  match value with
  | none => .ok []
  | some text =>
    match encode text with
    | none => .error .encode
    | some [] => .ok [[]]
    | some encoded => chunksFrom encoded maxBytes 0

/-- The payload of a delta: `payload` holds the entries that all chunks share. -/
structure Delta (α : Type) where
  payload : α
  outputField : String
  chunk : Text
  chunkIndex : Nat
  byteOffset : Nat

variable {α : Type}

/-- The loop over the chunks in `_emit_runtime_notification_locked`. -/
def deltasFrom (payload : α) (outputField : String) (chunkIndex byteOffset : Nat) :
    List Text → List (Delta α)
  | [] => []
  | chunk :: chunks =>
    { payload, outputField, chunk, chunkIndex, byteOffset } ::
      deltasFrom payload outputField (chunkIndex + 1) (byteOffset + (bytesOf chunk).length) chunks

def deltas (payload : α) (outputField : String) (value : Option Text) (maxBytes : Nat) :
    Except ChunkError (List (Delta α)) :=
  (rawChunks value maxBytes).map (deltasFrom payload outputField 0 0)

theorem exists_firstChunk {encoded : List UInt8} {maxBytes offset : Nat} {p : CodePoint}
    {rest : Text} (hmax : 4 ≤ maxBytes) (h : encode (p :: rest) = some (encoded.drop offset)) :
    offset < encoded.length ∧
      ∃ k chunk tail, 0 < k ∧ k ≤ maxBytes ∧
        lastChunk encoded offset (min encoded.length (offset + maxBytes) - offset) =
          some (chunk, offset + k) ∧
        p :: rest = chunk ++ tail ∧ chunk ≠ [] ∧
        encode chunk = some ((encoded.drop offset).take k) ∧
        encode tail = some (encoded.drop (offset + k)) := by
  obtain ⟨char, bytes, hchar, _, hbytes⟩ := encode_cons h
  have hsize : (String.utf8EncodeChar char).length = char.utf8Size :=
    String.length_utf8EncodeChar char
  have hpos := char.utf8Size_pos
  have hfour := char.utf8Size_le_four
  have hlength := congrArg List.length hbytes
  rw [List.length_drop, List.length_append, hsize] at hlength
  have hfirst : (encoded.drop offset).take char.utf8Size = String.utf8EncodeChar char := by
    rw [hbytes, List.take_append_of_le_length (by omega), List.take_of_length_le (by omega)]
  have hdecodes : decode ((encoded.drop offset).take char.utf8Size) = some [p] := by
    rw [decode_eq_some_iff, hfirst, encode, hchar]
    simp [encode]
  have hsome := isSome_lastChunk (min encoded.length (offset + maxBytes) - offset) hpos
    (by omega) (Option.isSome_of_eq_some hdecodes)
  obtain ⟨⟨chunk, stop⟩, hlast⟩ := Option.isSome_iff_exists.mp hsome
  obtain ⟨k, hk, hle, rfl, hchunk⟩ := lastChunk_eq_some hlast
  have hencode := decode_eq_some_iff.mp hchunk
  have hsplit : encode (p :: rest) =
      some ((encoded.drop offset).take k ++ (encoded.drop offset).drop k) := by
    rw [List.take_append_drop, h]
  obtain ⟨tail, htail, hrest⟩ := exists_append_of_encode hencode hsplit
  rw [List.drop_drop] at hrest
  refine ⟨by omega, k, chunk, tail, hk, by omega, hlast, htail, ?_, hencode, hrest⟩
  rintro rfl
  have hempty := congrArg List.length (Option.some.inj hencode)
  rw [List.length_nil, List.length_take, List.length_drop] at hempty
  omega

theorem chunksFrom_spec {encoded : List UInt8} {maxBytes offset : Nat} {rest : Text}
    (hmax : 4 ≤ maxBytes) (h : encode rest = some (encoded.drop offset)) :
    ∃ chunks, chunksFrom encoded maxBytes offset = .ok chunks ∧ chunks.flatten = rest ∧
      ∀ chunk ∈ chunks, chunk ≠ [] ∧
        ∃ bytes, encode chunk = some bytes ∧ bytes.length ≤ maxBytes := by
  induction hn : rest.length using Nat.strongRecOn generalizing rest offset with
  | ind n ih =>
    cases rest with
    | nil =>
      have hdrop := Option.some.inj h
      have hle : ¬offset < encoded.length := by
        have hlength := congrArg List.length hdrop
        rw [List.length_nil, List.length_drop] at hlength
        omega
      refine ⟨[], ?_, rfl, fun chunk hchunk => (List.not_mem_nil hchunk).elim⟩
      rw [chunksFrom, if_neg hle]
    | cons p rest =>
      obtain ⟨hlt, k, chunk, tail, _, hk, hlast, happend, hne, hchunk, htail⟩ :=
        exists_firstChunk hmax h
      have hshorter : tail.length < n := by
        have hlength := congrArg List.length happend
        rw [List.length_append] at hlength
        have hpos := List.length_pos_iff.mpr hne
        omega
      obtain ⟨chunks, hchunks, hflatten, hall⟩ := ih tail.length hshorter htail rfl
      refine ⟨chunk :: chunks, ?_, ?_, ?_⟩
      · rw [chunksFrom, if_pos hlt]
        split
        · rename_i hnone
          rw [hnone] at hlast
          cases hlast
        rename_i found stop hfound
        rw [hlast] at hfound
        cases hfound
        rw [hchunks]
        rfl
      · rw [List.flatten_cons, hflatten, happend]
      · intro c hc
        rcases List.mem_cons.mp hc with rfl | hc
        · exact ⟨hne, _, hchunk, by rw [List.length_take]; omega⟩
        · exact hall c hc

theorem getElem?_deltasFrom {payload : α} {outputField : String} {chunks : List Text}
    {chunkIndex byteOffset i : Nat} {delta : Delta α}
    (h : (deltasFrom payload outputField chunkIndex byteOffset chunks)[i]? = some delta) :
    chunks[i]? = some delta.chunk ∧ delta.chunkIndex = chunkIndex + i ∧
      delta.byteOffset = byteOffset + ((chunks.take i).map (List.length ∘ bytesOf)).sum := by
  induction chunks generalizing chunkIndex byteOffset i with
  | nil => cases h
  | cons chunk chunks ih =>
    cases i with
    | zero =>
      cases h
      exact ⟨rfl, rfl, rfl⟩
    | succ i =>
      obtain ⟨hchunk, hindex, hoffset⟩ := ih h
      refine ⟨hchunk, by omega, ?_⟩
      rw [hoffset, List.take_succ_cons, List.map_cons, List.sum_cons]
      simp only [Function.comp_apply]
      omega

theorem length_deltasFrom {payload : α} {outputField : String} {chunks : List Text}
    {chunkIndex byteOffset : Nat} :
    (deltasFrom payload outputField chunkIndex byteOffset chunks).length = chunks.length := by
  induction chunks generalizing chunkIndex byteOffset with
  | nil => rfl
  | cons chunk chunks ih => rw [deltasFrom, List.length_cons, ih, List.length_cons]

theorem encode_flatten {chunks : List Text} (h : ∀ chunk ∈ chunks, (encode chunk).isSome) :
    ∃ bytes, encode chunks.flatten = some bytes ∧
      bytes.length = (chunks.map (List.length ∘ bytesOf)).sum := by
  induction chunks with
  | nil => exact ⟨[], rfl, rfl⟩
  | cons chunk chunks ih =>
    obtain ⟨bytes, hbytes, hlength⟩ := ih fun c hc => h c (List.mem_cons_of_mem chunk hc)
    have hchunk := encode_bytesOf (h chunk List.mem_cons_self)
    refine ⟨bytesOf chunk ++ bytes, ?_, ?_⟩
    · rw [List.flatten_cons, encode_append, hchunk, hbytes]
      rfl
    · rw [List.length_append, hlength, List.map_cons, List.sum_cons]
      rfl

/-- The deltas of a text without surrogates carry it in order, each with a chunk that is not
too long and, but for the empty text, not empty, and with the length of the text before it. -/
theorem deltas_roundTrip (payload : α) (outputField : String) (text : Text) (maxBytes : Nat)
    (hmax : 4 ≤ maxBytes) (htext : (encode text).isSome) :
    ∃ chunks emitted, rawChunks (some text) maxBytes = .ok chunks ∧
      deltas payload outputField (some text) maxBytes = .ok emitted ∧
      chunks.flatten = text ∧ emitted.map Delta.chunk = chunks ∧
      (∀ chunk ∈ chunks, (text ≠ [] → chunk ≠ []) ∧
        ∃ bytes, encode chunk = some bytes ∧ bytes.length ≤ maxBytes) ∧
      ∀ (i : Nat) delta, emitted[i]? = some delta → delta.chunkIndex = i ∧
        ∃ bytes, encode (chunks.take i).flatten = some bytes ∧ delta.byteOffset = bytes.length := by
  have hchunks : ∃ chunks, rawChunks (some text) maxBytes = .ok chunks ∧
      chunks.flatten = text ∧ ∀ chunk ∈ chunks, (text ≠ [] → chunk ≠ []) ∧
        ∃ bytes, encode chunk = some bytes ∧ bytes.length ≤ maxBytes := by
    cases text with
    | nil => exact ⟨[[]], rfl, rfl, by simp [encode]⟩
    | cons p rest =>
      obtain ⟨encoded, hencoded⟩ := Option.isSome_iff_exists.mp htext
      have hstart : encode (p :: rest) = some (encoded.drop 0) := hencoded
      obtain ⟨chunks, hfrom, hflatten, hall⟩ := chunksFrom_spec hmax hstart
      refine ⟨chunks, ?_, hflatten, fun chunk hchunk => ?_⟩
      · obtain ⟨char, bytes, _, _, hbytes⟩ := encode_cons hencoded
        cases encoded with
        | nil =>
          have hne := @String.utf8EncodeChar_ne_nil char
          simp [hne] at hbytes
        | cons b encoded =>
          simp only [rawChunks, hencoded]
          exact hfrom
      · exact ⟨fun _ => (hall chunk hchunk).1, (hall chunk hchunk).2⟩
  obtain ⟨chunks, hraw, hflatten, hall⟩ := hchunks
  refine ⟨chunks, deltasFrom payload outputField 0 0 chunks, hraw, by rw [deltas, hraw]; rfl,
    hflatten, ?_, hall, fun i delta hdelta => ?_⟩
  · apply List.ext_getElem?
    intro i
    rw [List.getElem?_map]
    cases hdelta : (deltasFrom payload outputField 0 0 chunks)[i]? with
    | none =>
      rw [List.getElem?_eq_none_iff, length_deltasFrom] at hdelta
      exact (List.getElem?_eq_none hdelta).symm
    | some delta => exact (getElem?_deltasFrom hdelta).1.symm
  · obtain ⟨_, hindex, hoffset⟩ := getElem?_deltasFrom hdelta
    have hencodes : ∀ chunk ∈ chunks.take i, (encode chunk).isSome := by
      intro chunk hchunk
      obtain ⟨_, bytes, hbytes, _⟩ := hall chunk (List.mem_of_mem_take hchunk)
      exact Option.isSome_of_eq_some hbytes
    obtain ⟨bytes, hbytes, hlength⟩ := encode_flatten hencodes
    exact ⟨by omega, bytes, hbytes, by omega⟩

def sampleText : Text := ofChars ['a', 'é', '€', '😀']

theorem deltas_roundTrip_four :
    ∃ chunks emitted, rawChunks (some sampleText) 4 = .ok chunks ∧
      deltas () "text" (some sampleText) 4 = .ok emitted ∧
      chunks.flatten = sampleText ∧ emitted.map Delta.chunk = chunks := by
  obtain ⟨chunks, emitted, hchunks, hemitted, hflatten, hmap, _⟩ :=
    deltas_roundTrip () "text" sampleText 4 (by decide) (by decide)
  exact ⟨chunks, emitted, hchunks, hemitted, hflatten, hmap⟩

end CodexBridge.Runtime
