import CodexBridge.Library.Percent
import Mathlib.Data.Finset.Basic
import Mathlib.Data.Nat.Digits.Defs

/-! # Ranged downloads of the service

A download answers with a whole snapshot of a file, with one range of it, or with the
refusal of the range. Texts of headers are lists of characters.
-/

namespace CodexBridge.Downloads

/-- The SHA-256 of some bytes, as `hexdigest` writes it. -/
structure Digest where
  hexdigest : List UInt8 → List Char
  length_hexdigest : ∀ bytes, (hexdigest bytes).length = 64
  hex_hexdigest : ∀ bytes, ∀ c ∈ hexdigest bytes, c ∈ "0123456789abcdef".toList

/-- The bytes behind a stream. Their number is the size of a file, an `off_t`. -/
structure Snapshot where
  content : List UInt8
  isOffset : content.length < 9223372036854775808

def Snapshot.sizeBytes (s : Snapshot) : Nat := s.content.length

def streamSha256Etag (digest : Digest) (s : Snapshot) : List Char :=
  '"' :: digest.hexdigest s.content ++ ['"']

/-! ## Numbers -/

/-- `str.isdecimal` on a character of a header, which is Latin-1. -/
def isDecimalChar (c : Char) : Bool := c.isDigit

/-- `int` of decimal digits. -/
def toInt (digits : List Char) : Nat := Nat.ofDigitChars 10 digits 0

def decimal (n : Nat) : List Char := Nat.toDigits 10 n

def boundedDecimal (value : List Char) : Bool :=
  !value.isEmpty && value.length ≤ 19 && value.all isDecimalChar

def parseSingleRange (value : List Char) (sizeBytes : Nat) : Option (Nat × Nat) :=
  if !"bytes=".toList.isPrefixOf value || value.count ',' ≠ 0 || sizeBytes = 0 then none
  else
    let spec := value.drop 6
    if spec.count '-' ≠ 1 then none
    else
      let first := spec.takeWhile (· ≠ '-')
      let last := (spec.dropWhile (· ≠ '-')).drop 1
      if first.isEmpty && last.isEmpty then none
      else if first.isEmpty then
        if !boundedDecimal last || toInt last = 0 then none
        else some (sizeBytes - min (toInt last) sizeBytes, sizeBytes - 1)
      else if !boundedDecimal first || (!last.isEmpty && !boundedDecimal last) then none
      else
        let start := toInt first
        let stop := if last.isEmpty then sizeBytes - 1 else toInt last
        if start ≥ sizeBytes || stop < start then none
        else some (start, min stop (sizeBytes - 1))

/-- `re.sub(r'[^A-Za-z0-9._-]', "_", filename)`, one character. -/
def isFallbackChar (c : Char) : Bool :=
  c.isAlphanum || c = '.' || c = '_' || c = '-'

/-- `value.strip("._")`. -/
def stripDots (value : List Char) : List Char :=
  ((value.dropWhile fun c => c = '.' || c = '_').reverse.dropWhile
    fun c => c = '.' || c = '_').reverse

def fallbackName (filename : String) : List Char :=
  let stripped := stripDots (filename.toList.map fun c => if isFallbackChar c then c else '_')
  if stripped.isEmpty then "download".toList else stripped

def utf8 (text : String) : List UInt8 := text.toList.flatMap String.utf8EncodeChar

/-- `quote(filename, safe="")`. -/
def quote (filename : String) : List Char := Percent.encode (utf8 filename)

def attachmentDisposition (filename : String) : List Char :=
  "attachment; filename=\"".toList ++ fallbackName filename ++
    "\"; filename*=UTF-8''".toList ++ quote filename

structure Headers where
  acceptRanges : List Char
  cacheControl : List Char
  contentDisposition : Option (List Char)
  contentLength : Option (List Char)
  contentRange : Option (List Char)
  contentType : List Char
  etag : Option (List Char)
  contentTypeOptions : List Char

structure Response where
  status : Nat
  headers : Headers
  body : List UInt8

def blockBytes : Nat := 1048576

/-- The reading loop of `_stream_and_close` with `remaining` bytes to go. -/
def streamBlocks (remaining : Nat) (unread : List UInt8) : List (List UInt8) :=
  if _hzero : remaining = 0 then []
  else
    let chunk := unread.take (min blockBytes remaining)
    if _hchunk : chunk = [] then []
    else chunk :: streamBlocks (remaining - chunk.length) (unread.drop chunk.length)
termination_by remaining
decreasing_by exact Nat.sub_lt (by omega) (List.length_pos_of_ne_nil _hchunk)

def streamAndClose (s : Snapshot) (start length : Nat) : List UInt8 :=
  (streamBlocks length (s.content.drop start)).flatten

def baseHeaders (digest : Digest) (s : Snapshot) (filename : String) : Headers where
  acceptRanges := "bytes".toList
  cacheControl := "private, no-store, no-transform".toList
  contentDisposition := some (attachmentDisposition filename)
  contentLength := none
  contentRange := none
  contentType := "application/octet-stream".toList
  etag := some (streamSha256Etag digest s)
  contentTypeOptions := "nosniff".toList

/-- The range `snapshot_download_response` serves. -/
def selectRange (etag : List Char) (sizeBytes : Nat) (rangeHeader ifRange : Option (List Char)) :
    Option (Nat × Nat) :=
  match rangeHeader with
  | none => none
  | some value =>
    if !value.isEmpty && (ifRange = some etag || ifRange = none) then
      parseSingleRange value sizeBytes
    else none

/-- `snapshot_download_response`. An answer without a body has the length 0. -/
def snapshotDownloadResponse (digest : Digest) (s : Snapshot) (filename : String)
    (rangeHeader ifRange : Option (List Char)) : Response :=
  let etag := streamSha256Etag digest s
  let byteRange := selectRange etag s.sizeBytes rangeHeader ifRange
  let base := baseHeaders digest s filename
  if (rangeHeader.any fun value => !value.isEmpty) && byteRange = none &&
      (ifRange = none || ifRange = some etag) then
    { status := 416
      headers := { base with
        contentRange := some ("bytes */".toList ++ decimal s.sizeBytes)
        contentLength := some (decimal 0) }
      body := [] }
  else
    match byteRange with
    | none =>
      { status := 200
        headers := { base with contentLength := some (decimal s.sizeBytes) }
        body := streamAndClose s 0 s.sizeBytes }
    | some (start, stop) =>
      let length := stop - start + 1
      { status := 206
        headers := { base with
          contentLength := some (decimal length)
          contentRange := some ("bytes ".toList ++ decimal start ++ '-' :: decimal stop ++
            '/' :: decimal s.sizeBytes) }
        body := streamAndClose s start length }

theorem flatten_streamBlocks (remaining : Nat) (unread : List UInt8) :
    (streamBlocks remaining unread).flatten = unread.take remaining := by
  induction remaining using Nat.strongRecOn generalizing unread with
  | ind remaining ih =>
    unfold streamBlocks
    split
    · rename_i hzero
      rw [hzero, List.take_zero]
      rfl
    rename_i hne
    dsimp only
    split
    · rename_i hnil
      have hunread : unread = [] := by
        cases unread with
        | nil => rfl
        | cons b rest =>
          have hpos : 0 < min blockBytes remaining := by
            unfold blockBytes
            omega
          rw [List.take_eq_nil_iff] at hnil
          rcases hnil with hnil | hnil
          · omega
          · cases hnil
      rw [hunread, List.take_nil]
      rfl
    · rename_i hchunk
      have hpos := List.length_pos_of_ne_nil hchunk
      have hle : (unread.take (min blockBytes remaining)).length ≤ remaining := by
        rw [List.length_take]
        omega
      rw [List.flatten_cons, ih _ (by omega)]
      have hpre : unread.take (min blockBytes remaining) =
          unread.take (unread.take (min blockBytes remaining)).length := by
        rw [List.length_take, List.take_eq_take_iff]
        omega
      generalize hk : (unread.take (min blockBytes remaining)).length = k at *
      rw [hpre, ← List.take_add]
      congr 1
      omega

theorem streamAndClose_eq (s : Snapshot) (start length : Nat) :
    streamAndClose s start length = (s.content.drop start).take length :=
  flatten_streamBlocks _ _

end CodexBridge.Downloads
