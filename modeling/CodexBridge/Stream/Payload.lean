import CodexBridge.Journal.Replay
import CodexBridge.Stream.Broker
import Mathlib.Algebra.Group.Int.Defs

/-! # The pages of the journal on the wire

The App projects a page of its journal to JSON. The Integration checks what it reads and bounds
the payloads.
-/

namespace CodexBridge.Stream

/-! ## Texts -/

/-- `1 <= len(value) <= n`. -/
def isLength (n : Nat) (s : String) : Bool := decide (1 ≤ s.length) && decide (s.length ≤ n)

def clip (n : Nat) (s : String) : String := String.ofList (s.toList.take n)

def isIdentifierChar (c : Char) : Bool := c.isAlphanum || c = '_' || c = '-'

/-- `_SAFE_IDENTIFIER_PATTERN`. -/
def isBridgeIdentifier (s : String) : Bool := isLength 128 s && s.toList.all isIdentifierChar

def privateBrowserFields : List String :=
  ["turn_id", "codex_turn_id", "codex_thread_id", "codex_session_id", "active_turn_id",
    "active_run_id", "provider_request_id", "provider_method"]

mutual

/-- `redact`, with the calls the stack has room for; no value where it is exceeded. -/
def redact : (room : Nat) → Json → Option Json
  | 0, _ => none
  | room + 1, .obj fields => (redactFields room fields).map Json.obj
  | room + 1, .arr items => (redactItems room items).map Json.arr
  | _ + 1, value => some value

def redactFields (room : Nat) : List (String × Json) → Option (List (String × Json))
  | [] => some []
  | (key, value) :: rest =>
    if key ∈ privateBrowserFields then redactFields room rest
    else (redact room value).bind fun kept =>
      (redactFields room rest).map fun more => (key, kept) :: more

def redactItems (room : Nat) : List Json → Option (List Json)
  | [] => some []
  | item :: rest => (redact room item).bind fun kept =>
      (redactItems room rest).map fun more => kept :: more

end

/-- `_public_event_payload`. -/
def publicPayload (eventType : String) (payload : Journal.Payload) : Journal.Payload :=
  match Journal.publicEventFields eventType with
  | some kept => payload.filter fun f => f.1 ∈ kept
  | none => payload

/-- `project_public_event_payload`. -/
def projectPayload (room : Nat) (eventType : String) (payload : Journal.Payload) : Option Json :=
  redact room (.obj (publicPayload eventType payload))

def recordJson (r : Journal.Record) (payload : Json) : Json :=
  .obj [("cursor", .int r.cursor), ("event_id", .str r.eventId), ("scope", .str r.scope.name.text),
    ("thread_id", (r.scope.threadId.map Json.str).getD .null), ("event_type", .str r.eventType),
    ("payload", payload), ("timestamp", .str r.timestamp)]

/-- `_project_event`; no value where the redaction or the App's own model raises. -/
def projectEvent (room : Nat) (r : Journal.Record) : Option Json :=
  (projectPayload room r.eventType r.payload).bind fun payload =>
    if 1 ≤ r.cursor ∧ isLength 128 r.eventId ∧ (∀ id ∈ r.scope.threadId, isLength 128 id) ∧
        isLength 128 r.eventType ∧ isLength 64 r.timestamp then
      some (recordJson r payload)
    else none

def pageJson (b : Journal.EventBatch) (events : List Json) (heartbeat : Bool) : Json :=
  .obj [("events", .arr events), ("next_cursor", .int b.nextCursor),
    ("minimum_cursor", .int b.minimumCursor), ("has_more", .bool b.hasMore),
    ("heartbeat", .bool heartbeat)]

/-- `_project_batch`; no value is the answer `event_projection_invalid`, or a `RecursionError`
that goes through it. -/
def projectBatch (room : Nat) (b : Journal.EventBatch) (heartbeat : Bool) : Option Json :=
  (b.events.mapM (projectEvent room)).bind fun events =>
    if (b.events.map (·.cursor)).IsChain (· < ·) ∧
        (∀ r ∈ b.events.getLast?, r.cursor ≤ b.nextCursor) ∧
        (heartbeat = true → b.events = [] ∧ b.hasMore = false) then
      some (pageJson b events heartbeat)
    else none

/-- Library functions of the Integration. -/
structure Reader where
  /-- `str.isalnum` of one character. -/
  isAlnum : Char → Bool
  /-- `math.isfinite` of the number of a literal. -/
  isFinite : String → Bool
  jsonBytes : Json → Nat

def safePayloadNodes : Nat := 1024

def maxMessageTextBytes : Nat := 1048576

def messageTextEvents : List String :=
  ["message.created", "message.completed", "message.delta", "message.updated"]

def isMessageTextKey (key : String) : Bool := key ∈ ["text", "delta"]

def setField (fields : List (String × Json)) (key : String) (value : Json) : List (String × Json) :=
  if fields.any (·.1 = key) then fields.map fun f => if f.1 = key then (key, value) else f
  else fields ++ [(key, value)]

mutual

/-- `_safe_payload`, with what is left of the budget; no value where a text is too long. -/
def safePayload (reader : Reader) (messageText : Bool) (depth budget : Nat) (value : Json) :
    Option (Json × Nat) :=
  if 4 < depth ∨ budget = 0 then some (.null, budget)
  else
    match value with
    | .null => some (.null, budget - 1)
    | .bool b => some (.bool b, budget - 1)
    | .int n => some (if -(2 ^ 63) ≤ n ∧ n < 2 ^ 63 then .int n else .null, budget - 1)
    | .float literal =>
      some (if reader.isFinite literal then .float literal else .null, budget - 1)
    | .str s =>
      if messageText then
        if maxMessageTextBytes < PyText.utf8Length s then none else some (.str s, budget - 1)
      else some (.str (clip 4096 s), budget - 1)
    | .obj fields =>
      (safeFields reader (messageText && depth = 0) (depth + 1) 64 (budget - 1) [] fields).map
        fun r => (.obj r.1, r.2)
    | .arr items =>
      (safeItems reader (depth + 1) 64 (budget - 1) items).map fun r => (.arr r.1, r.2)

/-- The first `count` fields; a key that is met again has its later value. -/
def safeFields (reader : Reader) (messageText : Bool) (depth count budget : Nat)
    (taken : List (String × Json)) :
    List (String × Json) → Option (List (String × Json) × Nat)
  | [] => some (taken, budget)
  | (key, value) :: rest =>
    match count with
    | 0 => some (taken, budget)
    | count + 1 =>
      match safePayload reader (messageText && isMessageTextKey key) depth budget value with
      | none => none
      | some (kept, budget) =>
        safeFields reader messageText depth count budget
          (setField taken (clip 128 key) kept) rest

/-- The first `count` items. -/
def safeItems (reader : Reader) (depth count budget : Nat) : List Json → Option (List Json × Nat)
  | [] => some ([], budget)
  | item :: rest =>
    match count with
    | 0 => some ([], budget)
    | count + 1 =>
      match safePayload reader false depth budget item with
      | none => none
      | some (kept, budget) =>
        (safeItems reader depth count budget rest).map fun r => (kept :: r.1, r.2)

end

def get (fields : List (String × Json)) (key : String) : Json :=
  (Json.field? fields key).getD .null

def isTypeChar (reader : Reader) (c : Char) : Bool :=
  reader.isAlnum c || c = '.' || c = '_' || c = '-'

def readScope : String → Json → Option (EventScope × Option String)
  | "thread", .str id => if isBridgeIdentifier id then some (.thread, some id) else none
  | "auth", .null => some (.auth, none)
  | "runtime", .null => some (.runtime, none)
  | _, _ => none

def readPayload (reader : Reader) (scope : EventScope) (eventType : String) (payload : Json) :
    Option Json :=
  (safePayload reader (scope = .thread && messageTextEvents.contains eventType) 0 safePayloadNodes
    payload).map fun kept =>
      match kept.1 with
      | .obj fields => .obj fields
      | _ => .obj []

def EventRecord.fromPayload (reader : Reader) : Json → Option EventRecord
  | .obj fields =>
    match get fields "cursor", get fields "scope", get fields "event_type",
      get fields "timestamp", get fields "event_id" with
    | .int cursor, .str scope, .str eventType, .str timestamp, .str eventId =>
      if 1 ≤ cursor ∧ cursor ≤ cursorMax ∧ isLength 128 eventType ∧
          eventType.toList.all (isTypeChar reader) ∧ isLength 64 timestamp ∧
          isBridgeIdentifier eventId then
        (readScope scope (get fields "thread_id")).bind fun scope =>
          (readPayload reader scope.1 eventType
            ((Json.field? fields "payload").getD (.obj []))).map fun payload =>
              { cursor := cursor.toNat
                eventId := eventId
                scope := scope.1
                threadId := scope.2
                eventType := eventType
                payload := payload
                timestamp := timestamp
                estimatedBytes := reader.jsonBytes payload + eventId.length +
                  eventType.length + timestamp.length +
                    (scope.2.map String.length).getD 0 + 128 }
      else none
    | _, _, _, _, _ => none
  | _ => none

/-- The checks of a page whose events are read. -/
structure IsPage (events : List EventRecord) (next minimum : Nat) (hasMore heartbeat : Bool) :
    Prop where
  length : events.length ≤ maxBatchEvents
  ceiling : next ≤ cursorMax
  floor : minimum ≤ next
  increasing : (events.map (·.cursor)).IsChain (· < ·)
  first : ∀ e ∈ events.head?, minimum < e.cursor
  last : ∀ e ∈ events.getLast?, e.cursor ≤ next
  quiet : heartbeat = true → events = [] ∧ hasMore = false

instance (events : List EventRecord) (next minimum : Nat) (hasMore heartbeat : Bool) :
    Decidable (IsPage events next minimum hasMore heartbeat) :=
  decidable_of_iff
    (events.length ≤ maxBatchEvents ∧ next ≤ cursorMax ∧ minimum ≤ next ∧
      (events.map (·.cursor)).IsChain (· < ·) ∧ (∀ e ∈ events.head?, minimum < e.cursor) ∧
        (∀ e ∈ events.getLast?, e.cursor ≤ next) ∧
          (heartbeat = true → events = [] ∧ hasMore = false))
    ⟨fun ⟨length, ceiling, floor, increasing, first, last, quiet⟩ =>
        ⟨length, ceiling, floor, increasing, first, last, quiet⟩,
      fun h => ⟨h.length, h.ceiling, h.floor, h.increasing, h.first, h.last, h.quiet⟩⟩

theorem IsPage.pairwise {events : List EventRecord} {next minimum : Nat}
    {hasMore heartbeat : Bool} (h : IsPage events next minimum hasMore heartbeat) :
    events.Pairwise fun a b => a.cursor < b.cursor :=
  List.pairwise_map.mp (List.isChain_iff_pairwise.mp h.increasing)

theorem IsPage.bounds {events : List EventRecord} {next minimum : Nat}
    {hasMore heartbeat : Bool} (h : IsPage events next minimum hasMore heartbeat) :
    ∀ e ∈ events, minimum < e.cursor ∧ e.cursor ≤ next := by
  intro e he
  have hpairwise := h.pairwise
  constructor
  · cases hevents : events with
    | nil =>
      rw [hevents] at he
      cases he
    | cons a rest =>
      have hfirst : minimum < a.cursor := h.first a (by rw [hevents]; rfl)
      rw [hevents] at he hpairwise
      rcases List.mem_cons.mp he with rfl | hrest
      · exact hfirst
      · exact hfirst.trans (List.rel_of_pairwise_cons hpairwise hrest)
  · rcases List.eq_nil_or_concat events with rfl | ⟨initial, a, rfl⟩
    · cases he
    have hlast : a.cursor ≤ next := by
      apply h.last
      rw [List.concat_eq_append, List.getLast?_concat]
      rfl
    rw [List.concat_eq_append] at he hpairwise
    rcases List.mem_append.mp he with hinitial | hself
    · have hlt := (List.pairwise_append.mp hpairwise).2.2 e hinitial a List.mem_cons_self
      omega
    · rw [List.mem_singleton.mp hself]
      exact hlast

def EventBatch.ofChecks (events : List EventRecord) (next minimum : Nat)
    (hasMore heartbeat : Bool) : Option EventBatch :=
  if h : IsPage events next minimum hasMore heartbeat then
    some ⟨events, next, minimum, hasMore, heartbeat, h.length, h.ceiling, h.floor, h.pairwise,
      h.bounds, h.quiet⟩
  else none

def EventBatch.fromPayload (reader : Reader) : Json → Option EventBatch
  | .obj fields =>
    match get fields "events", get fields "next_cursor", get fields "minimum_cursor",
      (Json.field? fields "has_more").getD (.bool false),
      (Json.field? fields "heartbeat").getD (.bool false) with
    | .arr items, .int next, .int minimum, .bool hasMore, .bool heartbeat =>
      if items.length ≤ maxBatchEvents ∧ 0 ≤ next ∧ 0 ≤ minimum then
        (items.mapM (EventRecord.fromPayload reader)).bind fun events =>
          EventBatch.ofChecks events next.toNat minimum.toNat hasMore heartbeat
      else none
    | _, _, _, _, _ => none
  | _ => none

end CodexBridge.Stream
