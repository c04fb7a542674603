import CodexBridge.Downloads.Ranges

/-! # Download headers in the integration

The integration checks what the service answers and passes on the length, the range, the
tag and the disposition. A stored name is one the workspace grammar accepts.
-/

namespace CodexBridge.Downloads

/-! ## Names -/

/-- What the Unicode database of the interpreter says of characters. -/
structure Unicode where
  /-- The general category starts with `C`. -/
  isOther : Char → Bool
  isSpace : Char → Bool
  upper : List Char → List Char
  isOther_control : ∀ c : Char, c.toNat < 32 ∨ c.toNat = 127 → isOther c = true

def strip (u : Unicode) (value : List Char) : List Char :=
  ((value.dropWhile u.isSpace).reverse.dropWhile u.isSpace).reverse

def translateSuperscript (c : Char) : Char :=
  if c = '¹' then '1' else if c = '²' then '2' else if c = '³' then '3' else c

def reservedNames : List (List Char) :=
  ["CON".toList, "PRN".toList, "AUX".toList, "NUL".toList, "CONIN$".toList, "CONOUT$".toList] ++
    "123456789".toList.map (fun c => ['C', 'O', 'M', c]) ++
    "123456789".toList.map (fun c => ['L', 'P', 'T', c])

def validPortableComponent (u : Unicode) (component : List Char) : Bool :=
  !(component.isEmpty || component = ['.'] || component = ['.', '.']) &&
    !(component ≠ strip u component || component.getLast? = some '.' ||
      component.getLast? = some ' ') &&
    component.length ≤ 255 &&
    !(component.any fun c => "<>:\"/\\|?*".toList.contains c) &&
    !reservedNames.contains ((u.upper (component.takeWhile (· ≠ '.'))).map translateSuperscript)

def hasDrive : List Char → Bool
  | c :: ':' :: _ => c.isAlpha
  | _ => false

def normalizePortableRelativePath (u : Unicode) (value : List Char) : Option (List Char) :=
  if value.isEmpty || value ≠ strip u value then none
  else if value.any u.isOther then none
  else if value = ['.'] then none
  else if value.contains '/' && value.contains '\\' then none
  else if ['\\', '\\'] <:+: value then none
  else
    let portable := value.map fun c => if c = '\\' then '/' else c
    if portable.head? = some '/' || portable.getLast? = some '/' ||
        decide (['/', '/'] <:+: portable) || hasDrive portable || portable.contains ':' then none
    else
      let parts := portable.splitOn '/'
      if parts.all (validPortableComponent u) then some (['/'].intercalate parts) else none

/-- A filename that storage keeps: it is normal and names a file on disk. -/
structure StoredName (u : Unicode) where
  name : String
  normal : normalizePortableRelativePath u name.toList = some name.toList
  no_slash : '/' ∉ name.toList
  fits : (utf8 name).length ≤ 255

structure HttpStreamingError where
  status : Nat
  code : String

def bridgeResponseInvalid : HttpStreamingError := ⟨502, "bridge_response_invalid"⟩

def maxIdentifierInteger : Nat := 9223372036854775807

def containsControl (value : List Char) : Bool :=
  value.any fun c => c.toNat < 32 || c.toNat = 127

/-- `_safe_content_length`, over `_bounded_decimal`. -/
def safeContentLength : Option (List Char) → Option (Option (List Char))
  | none => some none
  | some value =>
    if value.isEmpty || value.length > 19 || !value.all isDecimalChar ||
        toInt value > maxIdentifierInteger then none
    else some (some (decimal (toInt value)))

def after (start value : List Char) : Option (List Char) :=
  if start.isPrefixOf value then some (value.drop start.length) else none

/-- `[0-9]{1,19}` at the start of a text, with what follows. -/
def numeral (value : List Char) : Option (Nat × List Char) :=
  let digits := value.takeWhile Char.isDigit
  if digits.isEmpty || digits.length > 19 then none
  else some (toInt digits, value.dropWhile Char.isDigit)

/-- `_PARTIAL_CONTENT_RANGE.fullmatch`. -/
def partialContentRange (value : List Char) : Option (Nat × Nat × Nat) := do
  let rest ← after "bytes ".toList value
  let (start, rest) ← numeral rest
  let rest ← after ['-'] rest
  let (stop, rest) ← numeral rest
  let rest ← after ['/'] rest
  let (total, rest) ← numeral rest
  if rest = [] then some (start, stop, total) else none

/-- `_UNSATISFIED_CONTENT_RANGE.fullmatch`. -/
def unsatisfiedContentRange (value : List Char) : Option Nat := do
  let rest ← after "bytes */".toList value
  let (total, rest) ← numeral rest
  if rest = [] then some total else none

def isEtag (value : List Char) : Bool :=
  value.length = 66 && value.head? = some '"' && value.getLast? = some '"' &&
    ((value.drop 1).take 64).all fun c => "0123456789abcdef".toList.contains c

def isEncodedChar (c : Char) : Bool :=
  c.isAlphanum || "!#$&+.^_|~%-".toList.contains c || c.toNat = 96

/-- `_ATTACHMENT_DISPOSITION.fullmatch`: the fallback and the encoded name. -/
def matchDisposition (value : List Char) : Option (List Char × List Char) := do
  let rest ← after "attachment; filename=\"".toList value
  let fallback := rest.takeWhile isFallbackChar
  let encoded ← after "\"; filename*=UTF-8''".toList (rest.dropWhile isFallbackChar)
  if 1 ≤ fallback.length ∧ fallback.length ≤ 255 ∧ 1 ≤ encoded.length ∧ encoded.length ≤ 2048 ∧
      encoded.all isEncodedChar then
    some (fallback, encoded)
  else none

def decodeUtf8 (bytes : List UInt8) : Option String := String.fromUTF8? bytes.toByteArray

def defaultDisposition : List Char := "attachment; filename=\"download\"".toList

/-- The name an encoded filename stands for, unless it is unsafe. -/
def decodedName (encoded : List Char) : Option String :=
  let decodedBytes := Percent.decode encoded
  match decodeUtf8 decodedBytes with
  | none => none
  | some decoded =>
    if decoded.toList = [] ∨ decoded.toList = ['.'] ∨ decoded.toList = ['.', '.'] ∨
        '/' ∈ decoded.toList ∨ '\\' ∈ decoded.toList ∨ containsControl decoded.toList = true ∨
        decodedBytes.length > 255 ∨ quote decoded ≠ encoded then
      none
    else some decoded

def safeAttachmentDisposition : Option (List Char) → List Char
  | none => defaultDisposition
  | some value =>
    if containsControl value then defaultDisposition
    else
      match matchDisposition value with
      | none => defaultDisposition
      | some (fallback, encoded) =>
        if fallback = ['.'] ∨ fallback = ['.', '.'] ∨ fallback.head? = some '.' then
          defaultDisposition
        else
          match decodedName encoded with
          | none => defaultDisposition
          | some _ => value

/-- The range check of `safe_download_headers`, with the length it leaves. -/
def checkedLength (status : Nat) (contentRange contentLength : Option (List Char)) :
    Option (Option (List Char)) :=
  if status = 206 then
    match contentRange.bind partialContentRange, contentLength with
    | some (start, stop, total), some length =>
      if start > stop ∨ stop ≥ total ∨ stop - start + 1 ≠ toInt length then none
      else some (some length)
    | _, _ => none
  else if status = 416 then
    match contentRange.bind unsatisfiedContentRange with
    | some _ => some (some ['0'])
    | none => none
  else if contentRange.isSome || contentLength.isNone then none
  else some contentLength

def safeDownloadHeaders (status : Nat) (upstream : Headers) : Except HttpStreamingError Headers :=
  if status ≠ 200 ∧ status ≠ 206 ∧ status ≠ 416 then .error bridgeResponseInvalid
  else
    match safeContentLength upstream.contentLength with
    | none => .error bridgeResponseInvalid
    | some contentLength =>
      match checkedLength status upstream.contentRange contentLength with
      | none => .error bridgeResponseInvalid
      | some contentLength =>
        if upstream.etag.any fun etag => !isEtag etag then .error bridgeResponseInvalid
        else .ok
          { acceptRanges := "bytes".toList
            cacheControl := "private, no-store, no-transform".toList
            contentDisposition := some (safeAttachmentDisposition upstream.contentDisposition)
            contentLength := contentLength
            contentRange := upstream.contentRange
            contentType := "application/octet-stream".toList
            etag := upstream.etag
            contentTypeOptions := "nosniff".toList }

end CodexBridge.Downloads
