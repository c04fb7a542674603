import CodexBridge.Library.Json
import CodexBridge.Panel.DraftRecovery
import Mathlib.Data.Rat.Floor

/-! # The panel's event stream

The panel keeps a cursor and the latest events of a chat. Values come from the connection and are
checked before they are used.
-/

namespace CodexBridge.Panel

/-! ## Events -/

def isIdChar (c : Char) : Bool := c.isAlphanum || c ∈ ['_', '.', ':', '-']

def isEventId (value : String) : Bool :=
  1 ≤ value.length && value.length ≤ 200 && value.toList.all isIdChar

def removeControlChars (value : List Char) : List Char :=
  value.filter fun c => 31 < c.toNat && c.toNat ≠ 127

/-- `sanitizeId`; nothing is left for `trim`. -/
def sanitizeId (value : String) : String :=
  String.ofList (((removeControlChars value.toList).filter isIdChar).take 200)

theorem isIdChar_plain {c : Char} (h : isIdChar c = true) :
    (31 < c.toNat && c.toNat ≠ 127) = true := by
  simp only [isIdChar, Bool.or_eq_true, decide_eq_true_eq, List.mem_cons, List.not_mem_nil,
    or_false] at h
  cases h with
  | inl hletter =>
    simp only [Char.isAlphanum] at hletter
    delta Char.isAlpha Char.isUpper Char.isLower at hletter
    simp only [Char.isDigit, Bool.or_eq_true, Bool.and_eq_true, decide_eq_true_eq,
      UInt32.le_iff_toNat_le, ge_iff_le] at hletter
    have hnat : c.toNat = c.val.toNat := rfl
    have hdigit0 : '0'.val.toNat = 48 := rfl
    have hdigit9 : '9'.val.toNat = 57 := rfl
    have hupperA : 'A'.val.toNat = 65 := rfl
    have hupperZ : 'Z'.val.toNat = 90 := rfl
    have hlowerA : 'a'.val.toNat = 97 := rfl
    have hlowerZ : 'z'.val.toNat = 122 := rfl
    simp only [ne_eq, decide_not, Bool.and_eq_true, decide_eq_true_eq, Bool.not_eq_eq_eq_not,
      Bool.not_true, decide_eq_false_iff_not]
    omega
  | inr hmark => rcases hmark with rfl | rfl | rfl | rfl <;> decide

theorem sanitizeId_of_isEventId {value : String} (h : isEventId value = true) :
    sanitizeId value = value := by
  simp only [isEventId, Bool.and_eq_true, decide_eq_true_eq, List.all_eq_true] at h
  have hplain : ∀ c ∈ value.toList, (31 < c.toNat && c.toNat ≠ 127) = true :=
    fun c hc => isIdChar_plain (h.2 c hc)
  have hlength : value.toList.length ≤ 200 := h.1.2
  rw [sanitizeId, removeControlChars, List.filter_eq_self.mpr hplain,
    List.filter_eq_self.mpr h.2, List.take_of_length_le hlength, String.ofList_toList]

/-- `Number.isSafeInteger(n) && n > 0`. -/
def isSequence (n : Int) : Bool := 0 < n && n ≤ maxSafeInteger

def isEventType (value : String) : Bool := value ≠ "" && utf16Length value ≤ 120

/-- What `parseEvent` returns; the other fields of the value are carried along unread. -/
structure Event where
  sequence : Int
  eventType : String
  eventId : Option String
  threadId : Option String
  payload : List (String × Json)
  sequence_ok : isSequence sequence = true
  eventType_ok : isEventType eventType = true
  eventId_ok : eventId.all isEventId = true
  threadId_ok : threadId.all isEventId = true
  deriving DecidableEq

def optionalId (fields : List (String × Json)) (key : String) :
    Option {id : Option String // id.all isEventId = true} :=
  match Json.field? fields key with
  | none => some ⟨none, rfl⟩
  | some (.str value) =>
    if h : isEventId value = true then
      some ⟨some (sanitizeId value), by rw [sanitizeId_of_isEventId h]; exact h⟩
    else none
  | some _ => none

/-- `parseEvent`, unknown types allowed. -/
def parseEvent : Json → Option Event
  | .obj fields =>
    match Json.field? fields "sequence", Json.field? fields "event_type",
      Json.field? fields "payload", optionalId fields "event_id",
      optionalId fields "thread_id" with
    | some (.int sequence), some (.str eventType), some (.obj payload), some eventId,
      some threadId =>
        if hsequence : isSequence sequence = true then
          if htype : isEventType eventType = true then
            some ⟨sequence, eventType, eventId, threadId, payload, hsequence, htype,
              eventId.property, threadId.property⟩
          else none
        else none
    | _, _, _, _, _ => none
  | _ => none

def idField (key : String) (id : Option String) : List (String × Json) :=
  id.toList.map fun value => (key, .str value)

def Event.value (e : Event) : Json :=
  .obj (idField "event_id" e.eventId ++ idField "thread_id" e.threadId ++
    [("event_type", .str e.eventType), ("sequence", .int e.sequence), ("payload", .obj e.payload)])

theorem parseEvent_value (e : Event) : parseEvent e.value = some e := by
  cases e with
  | mk sequence eventType eventId threadId payload hsequence htype hid hthread =>
    cases eventId with
    | none =>
      cases threadId with
      | none =>
        simp [parseEvent, Event.value, idField, Json.field?, optionalId, hsequence, htype]
      | some thread =>
        have hvalid : isEventId thread = true := hthread
        simp [parseEvent, Event.value, idField, Json.field?, optionalId, hsequence, htype,
          hvalid, sanitizeId_of_isEventId]
    | some id =>
      have hvalid : isEventId id = true := hid
      cases threadId with
      | none =>
        simp [parseEvent, Event.value, idField, Json.field?, optionalId, hsequence, htype,
          hvalid, sanitizeId_of_isEventId]
      | some thread =>
        have hvalid' : isEventId thread = true := hthread
        simp [parseEvent, Event.value, idField, Json.field?, optionalId, hsequence, htype,
          hvalid, hvalid', sanitizeId_of_isEventId]

def maxRetainedEvents : Int := 25000

inductive Number where
  | nan
  | infinity
  | negativeInfinity
  | finite (value : ℚ)

def isFalsy : Json → Bool
  | .null | .bool false | .int 0 | .str "" => true
  | _ => false

/-- `item?.sequence ? parseEvent(item) : null`. -/
def candidate : Json → Option Event
  | .obj fields =>
    if (Json.field? fields "sequence").all isFalsy then none else parseEvent (.obj fields)
  | _ => none

def unique (seenSequences : List Int) (seenIds : List String) : List Event → List Event
  | [] => []
  | event :: rest =>
    if event.sequence ∈ seenSequences ∨ event.eventId.any (· ∈ seenIds) then
      unique seenSequences seenIds rest
    else
      event :: unique (event.sequence :: seenSequences) (event.eventId.toList ++ seenIds) rest

/-- `valid.slice(-limit)`. -/
def latest (limit : Nat) (events : List Event) : List Event :=
  events.drop (events.length - limit)

def eventLimit (maxEvents : ℚ) : Nat := (max 1 (min maxRetainedEvents ⌊maxEvents⌋)).toNat

/-- `normalizeEvents`; the sort is stable. -/
def normalizeEvents (events : List Json) (maxEvents : ℚ) : List Event :=
  latest (eventLimit maxEvents) (unique [] []
    ((events.filterMap candidate).insertionSort fun left right => left.sequence ≤ right.sequence))

structure EventStream where
  cursor : Int
  events : List Event
  maxEvents : ℚ
  needsSnapshot : Bool
  error : Option String

/-- `Number(maxEvents) || MAX_RETAINED_EVENTS`, within its bounds. -/
def streamLimit : Number → ℚ
  | .nan => maxRetainedEvents
  | .infinity => maxRetainedEvents
  | .negativeInfinity => 1
  | .finite value =>
    if value = 0 then maxRetainedEvents else max 1 (min maxRetainedEvents value)

/-- `Number.isSafeInteger(cursor) && cursor >= 0 ? cursor : 0`. -/
def startCursor : Json → Int
  | .int cursor => if 0 ≤ cursor ∧ cursor ≤ maxSafeInteger then cursor else 0
  | _ => 0

def createEventStreamState (cursor : Json) (maxEvents : Number) : EventStream where
  cursor := startCursor cursor
  events := []
  maxEvents := streamLimit maxEvents
  needsSnapshot := false
  error := none

inductive Control where
  | snapshot
  | error

inductive Refusal where
  | invalid
  | replay
  | duplicate

/-- What `acceptEvent` says beside the state. -/
inductive Verdict where
  | refused (reason : Refusal)
  | accepted (event : Event) (control : Option Control)

/-- The first `n` UTF-16 units; a character that is cut is left out. -/
def sliceUnits : Nat → List Char → List Char
  | _, [] => []
  | n, c :: rest =>
    let units := if c.toNat < 0x10000 then 1 else 2
    if units ≤ n then c :: sliceUnits (n - units) rest else []

/-- The message of a `bridge.error`. -/
def errorMessage (event : Event) : String :=
  match Json.field? event.payload "error" with
  | some (.str error) => String.ofList (sliceUnits 1000 error.toList)
  | _ => "Bridge event stream failed"

def acceptEvent (current : EventStream) (value : Json) : EventStream × Verdict :=
  match parseEvent value with
  | none => (current, .refused .invalid)
  | some event =>
    if event.sequence ≤ current.cursor then (current, .refused .replay)
    else if event.eventType = "bridge.snapshot_required" then
      ({ current with cursor := event.sequence, needsSnapshot := true },
        .accepted event (some .snapshot))
    else if event.eventType = "bridge.error" then
      ({ current with
          cursor := event.sequence
          needsSnapshot := true
          error := some (errorMessage event) },
        .accepted event (some .error))
    else if current.needsSnapshot then (current, .accepted event (some .snapshot))
    else if event.eventId.isSome ∧
        current.events.any (fun item => item.eventId = event.eventId) then
      (current, .refused .duplicate)
    else
      ({ current with
          cursor := event.sequence
          events := normalizeEvents (current.events.map Event.value ++ [event.value])
            current.maxEvents
          needsSnapshot := false
          error := none },
        .accepted event none)

/-- What `acceptEvents` returns. -/
structure Batch where
  state : EventStream
  accepted : List Event
  controls : List Control

def acceptEach (next : EventStream) : List Event → Batch
  | [] => ⟨next, [], []⟩
  | value :: rest =>
    match acceptEvent next value.value with
    | (next, .refused _) => acceptEach next rest
    | (next, .accepted event (some control)) => ⟨next, [event], [control]⟩
    | (next, .accepted event none) =>
      let batch := acceptEach next rest
      { batch with accepted := event :: batch.accepted }

def items : Json → List Json
  | .arr items => items
  | _ => []

def acceptEvents (state : EventStream) (values : Json) : Batch :=
  acceptEach state (normalizeEvents (items values) maxRetainedEvents)

/-- `resetEventStream`: the bound is taken over. -/
def resetEventStream (state : EventStream) (cursor : Json) : EventStream :=
  createEventStreamState cursor (.finite state.maxEvents)

inductive Call where
  | acceptEvent (value : Json)
  | acceptEvents (values : Json)
  | resetEventStream (cursor : Json)

def EventStream.call (state : EventStream) : Call → Batch
  | .acceptEvent value =>
    match Panel.acceptEvent state value with
    | (next, .refused _) => ⟨next, [], []⟩
    | (next, .accepted event control) => ⟨next, [event], control.toList⟩
  | .acceptEvents values => Panel.acceptEvents state values
  | .resetEventStream cursor => ⟨Panel.resetEventStream state cursor, [], []⟩

end CodexBridge.Panel
