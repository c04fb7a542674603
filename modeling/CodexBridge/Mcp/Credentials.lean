import CodexBridge.Library.Json
import CodexBridge.Library.Redact
import Mathlib.Data.List.Sort
import Mathlib.Data.List.Dedup
import Mathlib.Algebra.GroupWithZero.Nat

/-! # Credentials of a local MCP server

A static credential is one or more request headers. Their values are taken out of every response
body before it is passed on, chunk by chunk.
-/

namespace CodexBridge.Mcp

open Redact

/-! ## Credentials -/

inductive CredentialMode
  | open
  | bearer
  | headers
deriving DecidableEq

def CredentialMode.ofString : String → Option CredentialMode
  | "none" => some .open
  | "bearer" => some .bearer
  | "headers" => some .headers
  | _ => none

/-- `McpCredential`; the mode `"none"` is `open`. -/
structure McpCredential where
  mode : CredentialMode
  headers : List (String × String)

/-- `_secret`; there is no value where it raises `LocalMcpError`. -/
def secret : Json → Option String
  | .str value =>
    if 8 ≤ value.length ∧ value.length ≤ 4096 ∧ PyText.strip value = value ∧
        value.toList.all fun c => 32 ≤ c.toNat && c.toNat ≤ 126 then some value
    else none
  | _ => none

def isTokenChar (c : Char) : Bool := c.isAlphanum || c ∈ ['.', '_', '~', '+', '/', '-']

/-- The full match of a bearer token: its characters, then padding. -/
def isToken (token : String) : Bool :=
  !(token.toList.takeWhile isTokenChar).isEmpty &&
    (token.toList.dropWhile isTokenChar).all (· = '=')

/-- `_NAME`. -/
def isName (name : String) : Bool :=
  match name.toList with
  | [] => false
  | c :: rest => c.isAlpha && rest.length ≤ 63 && rest.all fun d => d.isAlphanum || d = '-'

def reserved : List String :=
  ["authorization", "proxy-authorization", "host", "cookie", "set-cookie",
    "connection", "keep-alive", "transfer-encoding", "content-length",
    "content-type", "content-encoding", "accept", "accept-encoding", "te",
    "trailer", "upgrade", "expect", "origin", "referer", "user-agent",
    "forwarded", "via", "range", "date", "dnt", "last-event-id",
    "x-real-ip", "x-original-url", "x-rewrite-url", "x-http-method-override",
    "x-method-override", "x-http-method", "destination", "max-forwards"]

def reservedStarts : List String :=
  ["proxy-", "sec-", "mcp-", "x-forwarded-", "x-codex-", "content-", "if-"]

/-- A header name that may be used, given the lower-case names before it. -/
def isFreeName (seen : List String) (name : String) : Bool :=
  isName name && !reserved.contains name.toLower && !seen.contains name.toLower &&
    !reservedStarts.any fun start => start.toList.isPrefixOf name.toLower.toList

/-- The loop over `value["headers"]`. -/
def parseHeaders : List String → List Json → Option (List (String × String))
  | _, [] => some []
  | seen, .obj fields :: rest =>
    if Json.hasExactly fields ["name", "value"] then
      match Json.field? fields "name", Json.field? fields "value" with
      | some (.str name), some value =>
        if isFreeName seen name then
          (secret value).bind fun text =>
            (parseHeaders (name.toLower :: seen) rest).map ((name, text) :: ·)
        else none
      | _, _ => none
    else none
  | _, _ :: _ => none

/-- `parse_credential(value)` of a value with this mode. -/
def parseFields (mode : CredentialMode) (fields : List (String × Json)) : Option McpCredential :=
  match mode with
  | .open => if Json.hasExactly fields ["mode"] then some ⟨.open, []⟩ else none
  | .bearer =>
    if Json.hasExactly fields ["mode", "token"] then
      ((Json.field? fields "token").bind secret).bind fun token =>
        if isToken token then some ⟨.bearer, [("Authorization", "Bearer " ++ token)]⟩ else none
    else none
  | .headers =>
    if Json.hasExactly fields ["mode", "headers"] then
      match Json.field? fields "headers" with
      | some (.arr pairs) =>
        if 1 ≤ pairs.length ∧ pairs.length ≤ 8 then
          (parseHeaders [] pairs).bind fun result =>
            if (result.map fun pair => pair.1.length + pair.2.length).sum > 8192 then none
            else some ⟨.headers, result⟩
        else none
      | _ => none
    else none

def modeOf (fields : List (String × Json)) : Option CredentialMode :=
  ((Json.field? fields "mode").bind Json.str?).bind CredentialMode.ofString

/-- `parse_credential(value)`. -/
def parsePlain : Json → Option McpCredential
  | .null => some ⟨.open, []⟩
  | .obj fields => (modeOf fields).bind fun mode => parseFields mode fields
  | _ => none

/-- A stored pair as the object that `parse_credential` reads. -/
def pairObject : Json → Option Json
  | .arr [name, value] => some (.obj [("name", name), ("value", value)])
  | _ => none

/-- `parse_credential(value, stored=True)`. -/
def parseStored : Json → Option McpCredential
  | .obj fields =>
    (modeOf fields).bind fun mode =>
      if Json.hasExactly fields ["mode", "headers"] then
        match Json.field? fields "headers" with
        | some (.arr []) => some ⟨mode, []⟩
        | some (.arr pairs) =>
          (pairs.mapM pairObject).bind fun objects =>
            if mode = .bearer then
              match pairs with
              | [.arr [.str "Authorization", .str text]] =>
                if "Bearer ".toList.isPrefixOf text.toList then
                  parseFields .bearer [("mode", .str "bearer"),
                    ("token", .str (String.ofList (text.toList.drop 7)))]
                else none
              | _ => none
            else parseFields mode [("mode", (Json.field? fields "mode").getD .null),
              ("headers", .arr objects)]
        | _ => none
      else none
  | _ => none

def parseCredential (value : Json) (stored : Bool) : Option McpCredential :=
  if stored then parseStored value else parsePlain value

/-- `\uXXXX`. -/
def unicodeEscape (n : Nat) : List Char :=
  '\\' :: 'u' :: [(n / 4096 % 16).digitChar, (n / 256 % 16).digitChar, (n / 16 % 16).digitChar,
    (n % 16).digitChar]

def asciiEscape (c : Char) : List Char :=
  if c = '"' then ['\\', '"']
  else if c = '\\' then ['\\', '\\']
  else if 32 ≤ c.toNat ∧ c.toNat ≤ 126 then [c]
  else if c.toNat = 8 then ['\\', 'b']
  else if c.toNat = 9 then ['\\', 't']
  else if c.toNat = 10 then ['\\', 'n']
  else if c.toNat = 12 then ['\\', 'f']
  else if c.toNat = 13 then ['\\', 'r']
  else if c.toNat < 0x10000 then unicodeEscape c.toNat
  else unicodeEscape (0xD800 + (c.toNat - 0x10000) / 1024) ++
    unicodeEscape (0xDC00 + (c.toNat - 0x10000) % 1024)

def encode (value : List Char) : List UInt8 := value.flatMap String.utf8EncodeChar

namespace McpCredential

def values (c : McpCredential) : List (List Char) :=
  let texts := c.headers.map fun pair => pair.2.toList
  if c.mode = .bearer then texts ++ (texts.head?.map (List.drop 7)).toList else texts

/-- Each value as it is and as `json.dumps` writes it between the quotes. -/
def secrets (c : McpCredential) : List (List UInt8) :=
  c.values.flatMap fun value => [encode value, encode (value.flatMap asciiEscape)]

/-- `_patterns`. Patterns of one length are never found at one place, so that their order, which
the set leaves open, makes no difference. -/
def patterns (c : McpCredential) : List (List UInt8) :=
  c.secrets.dedup.insertionSort fun p q => q.length ≤ p.length

end McpCredential

structure CredentialRedactor where
  patterns : List (List UInt8)
  pending : List UInt8

namespace CredentialRedactor

/-- `CredentialRedactor.__init__`. -/
def ofCredential (c : McpCredential) : CredentialRedactor := ⟨c.patterns, []⟩

/-- `feed`, with its output in parts. -/
def feed (r : CredentialRedactor) (chunk : List UInt8) (final : Bool) :
    List (Segment UInt8) × CredentialRedactor :=
  if r.patterns.isEmpty then ([.copied chunk], r)
  else
    let fed := Redact.feed r.patterns r.pending chunk final
    (fed.1, { r with pending := fed.2 })

/-- The bodies `McpRelay` sends: one for each chunk and one for the end. -/
def relay (r : CredentialRedactor) : List (List UInt8) → List (Segment UInt8)
  | [] => (r.feed [] true).1
  | chunk :: rest =>
    let fed := r.feed chunk false
    fed.1 ++ relay fed.2 rest

end CredentialRedactor

/-- `b"[redacted]"`. -/
def marker : List UInt8 := encode "[redacted]".toList

def McpCredential.HasValues (c : McpCredential) : Prop := ∀ value ∈ c.values, value ≠ []

theorem secret_length {value : Json} {text : String} (h : secret value = some text) :
    8 ≤ text.toList.length := by
  unfold secret at h
  split at h
  · obtain ⟨hvalid, h⟩ := Option.ite_none_right_eq_some.mp h
    cases h
    rw [String.length_toList]
    exact hvalid.1
  · cases h

theorem parseHeaders_cons {seen : List String} {pair : Json} {rest : List Json}
    {result : List (String × String)} (h : parseHeaders seen (pair :: rest) = some result) :
    ∃ name value text others, isFreeName seen name = true ∧ secret value = some text ∧
      parseHeaders (name.toLower :: seen) rest = some others ∧ result = (name, text) :: others := by
  unfold parseHeaders at h
  split at h
  · rename_i heq
    cases heq
  · rename_i heq
    cases heq
    obtain ⟨_, h⟩ := Option.ite_none_right_eq_some.mp h
    split at h
    · rename_i name value _ _
      obtain ⟨hfree, h⟩ := Option.ite_none_right_eq_some.mp h
      obtain ⟨text, htext, h⟩ := Option.bind_eq_some_iff.mp h
      obtain ⟨others, hothers, rfl⟩ := Option.map_eq_some_iff.mp h
      exact ⟨name, value, text, others, hfree, htext, hothers, rfl⟩
    · cases h
  · cases h

theorem parseHeaders_values {seen : List String} {pairs : List Json}
    {result : List (String × String)} (h : parseHeaders seen pairs = some result) :
    ∀ pair ∈ result, pair.2.toList ≠ [] := by
  induction pairs generalizing seen result with
  | nil =>
    cases h
    exact fun _ hp => absurd hp List.not_mem_nil
  | cons pair rest ih =>
    obtain ⟨_, _, text, others, _, htext, hothers, rfl⟩ := parseHeaders_cons h
    intro p hp
    rcases List.mem_cons.mp hp with rfl | hp
    · have hlength := secret_length htext
      intro hnil
      have hnil : text.toList = [] := hnil
      rw [hnil] at hlength
      exact absurd hlength (by decide)
    · exact ih hothers p hp

theorem hasValues_nil (mode : CredentialMode) : (McpCredential.mk mode []).HasValues := by
  intro value hvalue
  cases mode with
  | _ => simp [McpCredential.values] at hvalue

variable {c : McpCredential}

theorem parseFields_values {mode : CredentialMode} {fields : List (String × Json)}
    (h : parseFields mode fields = some c) : c.HasValues := by
  cases mode with
  | «open» =>
    obtain ⟨_, h⟩ := Option.ite_none_right_eq_some.mp h
    cases h
    exact hasValues_nil .open
  | bearer =>
    obtain ⟨_, h⟩ := Option.ite_none_right_eq_some.mp h
    obtain ⟨token, htoken, h⟩ := Option.bind_eq_some_iff.mp h
    obtain ⟨_, h⟩ := Option.ite_none_right_eq_some.mp h
    cases h
    obtain ⟨value, _, hsecret⟩ := Option.bind_eq_some_iff.mp htoken
    have hlength := secret_length hsecret
    have hsplit : ("Bearer " ++ token).toList = "Bearer ".toList ++ token.toList :=
      String.toList_append
    intro value hvalue
    have hcases : value = ("Bearer " ++ token).toList ∨
        value = ("Bearer " ++ token).toList.drop 7 := by
      simpa [McpCredential.values] using hvalue
    rcases hcases with rfl | rfl
    · rw [hsplit]
      exact List.cons_ne_nil _ _
    rw [hsplit]
    show token.toList ≠ []
    intro hnil
    rw [hnil] at hlength
    exact absurd hlength (by decide)
  | headers =>
    obtain ⟨_, h⟩ := Option.ite_none_right_eq_some.mp h
    split at h
    · obtain ⟨_, h⟩ := Option.ite_none_right_eq_some.mp h
      obtain ⟨result, hresult, h⟩ := Option.bind_eq_some_iff.mp h
      obtain ⟨_, h⟩ := Option.ite_none_left_eq_some.mp h
      cases h
      intro value hvalue
      have hmem : value ∈ result.map fun pair => pair.2.toList := hvalue
      obtain ⟨pair, hpair, rfl⟩ := List.mem_map.mp hmem
      exact parseHeaders_values hresult pair hpair
    · cases h

theorem parseCredential_values {value : Json} {stored : Bool}
    (h : parseCredential value stored = some c) : c.HasValues := by
  unfold parseCredential at h
  split at h
  · unfold parseStored at h
    split at h
    · obtain ⟨mode, _, h⟩ := Option.bind_eq_some_iff.mp h
      obtain ⟨_, h⟩ := Option.ite_none_right_eq_some.mp h
      split at h
      · cases h
        exact hasValues_nil mode
      · obtain ⟨objects, _, h⟩ := Option.bind_eq_some_iff.mp h
        split at h
        · split at h
          · obtain ⟨_, h⟩ := Option.ite_none_right_eq_some.mp h
            exact parseFields_values h
          · cases h
        · exact parseFields_values h
      · cases h
    · cases h
  · unfold parsePlain at h
    split at h
    · cases h
      exact hasValues_nil .open
    · obtain ⟨mode, _, h⟩ := Option.bind_eq_some_iff.mp h
      exact parseFields_values h
    · cases h

theorem encode_ne_nil {value : List Char} (h : value ≠ []) : encode value ≠ [] := by
  cases value with
  | nil => exact absurd rfl h
  | cons c rest =>
    intro hnil
    have hhead := (List.append_eq_nil_iff.mp hnil).1
    have hsize := String.length_utf8EncodeChar c
    rw [hhead] at hsize
    have hpos := c.utf8Size_pos
    exact absurd hsize (Nat.ne_of_lt hpos)

theorem asciiEscape_ne_nil (c : Char) : asciiEscape c ≠ [] := by
  unfold asciiEscape unicodeEscape
  repeat' split
  all_goals simp

theorem McpCredential.mem_patterns {p : List UInt8} : p ∈ c.patterns ↔ p ∈ c.secrets := by
  unfold McpCredential.patterns
  rw [List.mem_insertionSort, List.mem_dedup]

theorem McpCredential.HasValues.ordered (h : c.HasValues) : Ordered c.patterns where
  nonempty := by
    intro p hp
    obtain ⟨value, hvalue, hp⟩ := List.mem_flatMap.mp (McpCredential.mem_patterns.mp hp)
    have hne := h value hvalue
    rcases List.mem_pair.mp hp with rfl | rfl
    · exact encode_ne_nil hne
    apply encode_ne_nil
    cases value with
    | nil => exact absurd rfl hne
    | cons c rest => exact fun hnil => asciiEscape_ne_nil c (List.append_eq_nil_iff.mp hnil).1
  sorted := by
    have htotal : Std.Total fun p q : List UInt8 => q.length ≤ p.length :=
      ⟨fun p q => Nat.le_total q.length p.length⟩
    have htrans : IsTrans (List UInt8) fun p q => q.length ≤ p.length :=
      ⟨fun _ _ _ hpq hqr => Nat.le_trans hqr hpq⟩
    exact List.pairwise_insertionSort _ _

theorem McpCredential.endsInside_patterns (c : McpCredential) :
    EndsInside c.patterns ↔ EndsInside c.secrets := by
  unfold EndsInside
  simp only [McpCredential.mem_patterns]

theorem search_nil (data : List UInt8) : search [] data = none := by
  induction data with
  | nil => rfl
  | cons b rest ih => simp [search, pick, ih]

theorem feed_nil (chunk : List UInt8) (final : Bool) :
    Redact.feed [] [] chunk final = ([.copied chunk], []) := by
  have hsegments : segments [] chunk.length chunk = ([], chunk) := by
    cases hlength : chunk.length with
    | zero => rfl
    | succ n => simp only [segments, search_nil]
  have hkeep : (if final = true then 0 else keepLength [] chunk) = 0 := by
    cases final with
    | _ => rfl
  unfold Redact.feed
  simp only [List.nil_append, hsegments, hkeep, lastOf, Nat.sub_zero, List.take_length,
    List.drop_length]

namespace CredentialRedactor

theorem feed_eq (c : McpCredential) (pending chunk : List UInt8) (final : Bool)
    (h : c.patterns = [] → pending = []) :
    feed ⟨c.patterns, pending⟩ chunk final =
      ((Redact.feed c.patterns pending chunk final).1,
        ⟨c.patterns, (Redact.feed c.patterns pending chunk final).2⟩) := by
  unfold feed
  split
  · rename_i hempty
    have hnil : c.patterns = [] := List.isEmpty_iff.mp hempty
    have hpending := h hnil
    subst hpending
    rw [hnil, feed_nil]
  · rfl

theorem relay_eq (c : McpCredential) (pending : List UInt8) (chunks : List (List UInt8))
    (h : c.patterns = [] → pending = []) :
    relay ⟨c.patterns, pending⟩ chunks = feedAll c.patterns pending chunks := by
  induction chunks generalizing pending with
  | nil =>
    show (feed ⟨c.patterns, pending⟩ [] true).1 = _
    rw [feed_eq c pending [] true h]
    rfl
  | cons chunk rest ih =>
    show (feed ⟨c.patterns, pending⟩ chunk false).1 ++ relay _ rest = _
    rw [feed_eq c pending chunk false h]
    show _ ++ relay ⟨c.patterns, _⟩ rest = _
    rw [ih]
    · rfl
    intro hnil
    have hpending := h hnil
    subst hpending
    rw [hnil, feed_nil]

theorem relay_ofCredential (c : McpCredential) (chunks : List (List UInt8)) :
    (ofCredential c).relay chunks = feedAll c.patterns [] chunks :=
  relay_eq c [] chunks fun _ => rfl

theorem feed_ofCredential (c : McpCredential) (body : List UInt8) :
    ((ofCredential c).feed body true).1 = (Redact.feed c.patterns [] body true).1 := by
  show (feed ⟨c.patterns, []⟩ body true).1 = _
  rw [feed_eq c [] body true fun _ => rfl]

end CredentialRedactor

def McpCredential.sent (c : McpCredential) (chunks : List (List UInt8)) : List UInt8 :=
  render marker ((CredentialRedactor.ofCredential c).relay chunks)

def McpCredential.sentWhole (c : McpCredential) (body : List UInt8) : List UInt8 :=
  render marker ((CredentialRedactor.ofCredential c).feed body true).1

def McpCredential.replaced (c : McpCredential) (chunks : List (List UInt8)) : List Bool :=
  marks ((CredentialRedactor.ofCredential c).relay chunks)

/-- How the body comes in makes no difference, and no value of the credential is copied whole. -/
def McpCredential.RedactsAlike (c : McpCredential) : Prop :=
  ∀ chunks : List (List UInt8), c.sent chunks = c.sentWhole chunks.flatten ∧
    ∀ p ∈ c.secrets, ∀ i, p <+: chunks.flatten.drop i → Covered (c.replaced chunks) i p.length

/-- No value passes whole, however the body is split. -/
theorem McpCredential.HasValues.covered (h : c.HasValues)
    (chunks : List (List UInt8)) {p : List UInt8} (hp : p ∈ c.secrets) {i : Nat}
    (hpre : p <+: chunks.flatten.drop i) : Covered (c.replaced chunks) i p.length := by
  unfold McpCredential.replaced
  rw [CredentialRedactor.relay_ofCredential]
  exact h.ordered.feedAll_covered (McpCredential.mem_patterns.mpr hp) [] chunks hpre

/-- The chunks make no difference exactly if no value of the credential lies in another one that
ends later. -/
theorem McpCredential.redactsAlike_iff {value : Json} {stored : Bool} {c : McpCredential}
    (hc : parseCredential value stored = some c) : c.RedactsAlike ↔ ¬ EndsInside c.secrets := by
  have hvalues := parseCredential_values hc
  have hsame : (∀ chunks, c.sent chunks = c.sentWhole chunks.flatten) ↔
      ¬ EndsInside c.patterns := by
    unfold McpCredential.sent McpCredential.sentWhole
    simp only [CredentialRedactor.relay_ofCredential, CredentialRedactor.feed_ofCredential]
    exact hvalues.ordered.chunks_iff (encode_ne_nil (by decide))
  rw [c.endsInside_patterns] at hsame
  constructor
  · intro hall
    exact hsame.mp fun chunks => (hall chunks).1
  · intro hends chunks
    exact ⟨hsame.mpr hends chunks, fun p hp i hprefix => hvalues.covered chunks hp hprefix⟩

def bearerSample : Json := .obj [("mode", .str "bearer"), ("token", .str "token-0123456789")]

theorem McpCredential.redactsAlike_bearer :
    (parseCredential bearerSample false).isSome = true ∧
      ∀ c, parseCredential bearerSample false = some c →
        ¬ EndsInside c.secrets ∧ c.RedactsAlike := by
  have hends : ∀ c, parseCredential bearerSample false = some c → ¬ EndsInside c.secrets := by
    intro c hc
    have hall : (parseCredential bearerSample false).all
        (fun c => !decide (EndsInside c.secrets)) = true := by
      decide +kernel
    rw [hc] at hall
    simpa using hall
  exact ⟨by decide +kernel, fun c hc => ⟨hends c hc,
    (McpCredential.redactsAlike_iff hc).mpr (hends c hc)⟩⟩

def nestedHeaders : Json :=
  .obj [("mode", .str "headers"), ("headers", .arr [
    .obj [("name", .str "X-Api"), ("value", .str "abcdefgh")],
    .obj [("name", .str "X-Key"), ("value", .str "abcdefgh12")]])]

/-- After the first eight bytes of the longer value the rest of it is sent. -/
theorem McpCredential.nestedHeaders_differ : ¬ ∀ (value : Json) (stored : Bool)
    (c : McpCredential), parseCredential value stored = some c → c.RedactsAlike := by
  intro hall
  have hrun : (parseCredential nestedHeaders false).any (fun c =>
      c.sent [encode "abcdefgh".toList, encode "12".toList] = encode "[redacted]12".toList ∧
        c.sentWhole (encode "abcdefgh12".toList) = encode "[redacted]".toList) = true := by
    decide +kernel
  obtain ⟨c, hc, hsent⟩ := (Option.any_eq_true _ _).mp hrun
  obtain ⟨hsplit, hwhole⟩ := of_decide_eq_true hsent
  have hsame := (hall nestedHeaders false c hc [encode "abcdefgh".toList, encode "12".toList]).1
  rw [hsplit] at hsame
  have hbody : [encode "abcdefgh".toList, encode "12".toList].flatten =
      encode "abcdefgh12".toList := by
    decide +kernel
  rw [hbody, hwhole] at hsame
  exact absurd hsame (by decide +kernel)

end CodexBridge.Mcp
