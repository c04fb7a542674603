import CodexBridge.Journal.Tables
import CodexBridge.Library.Effect
import Mathlib.Data.List.Sort

/-! # Appending, evicting and pruning

Every write runs in one transaction: it returns a new database or raises and
leaves the old one. What a call draws from its surroundings (the clock, a fresh
identifier, whether the journal file has room) is part of its arguments.
-/

namespace CodexBridge.Journal

open Effect

/-- What an append draws: `_now()`, `uuid4().hex` and whether the file is full. -/
structure Draws where
  now : String
  uuid : String
  full : Bool

structure AppendRequest where
  operationKey : String
  scope : String
  threadId : Option String
  eventType : String
  payload : Json
  timestamp : Option String
  operationId : Option String
  eventId : Option String
  scopeSequence : Option Nat

/-- What a call of `_append` inserted, and what it was asked for. -/
structure Insertion where
  request : AppendRequest
  record : Record

/-- The arguments of `_append` after its checks. -/
structure CheckedAppend where
  operationKey : String
  scope : Scope
  eventType : String
  payload : Payload
  payloadBytes : Nat
  fingerprint : String
  operationId : Option String
  eventId : String
  timestamp : String
  scopeSequence : Option Nat

def optionalIdentifier (value : Option String) (field : String) (maximum : Nat) :
    Except JournalError (Option String) :=
  match value with
  | some v => (boundedIdentifier v field maximum).map some
  | none => .ok none

def maxSqlInteger : Nat := 9223372036854775807

/-- The part of `_append` before the database is opened. -/
def checkAppend (env : Environment) (request : AppendRequest) (draws : Draws) :
    Except JournalError CheckedAppend := do
  let scope ← normalizeScope request.scope request.threadId
  let operationKey ← boundedIdentifier request.operationKey "operation key" 512
  let eventType ← boundedIdentifier request.eventType "event type" 128
  let operationId ← optionalIdentifier request.operationId "operation id" 256
  refuse (request.scopeSequence = some 0) (.value "scope sequence is invalid")
  let timestamp ← optionalIdentifier request.timestamp "event timestamp" 64
  let payload ← projectPayload eventType request.payload
  let payloadBytes := env.payloadBytes payload
  refuse (payloadBytes > env.maxEventPayloadBytes) .payloadTooLarge
  let given := request.eventId.filter (· ≠ "")
  let eventId ← boundedIdentifier (given.getD ("evt_" ++ draws.uuid)) "event id" 128
  return {
    operationKey := operationKey
    scope := scope
    eventType := eventType
    payload := payload
    payloadBytes := payloadBytes
    fingerprint := env.sha256 (.event scope eventType payload timestamp request.scopeSequence)
    operationId := operationId
    eventId := eventId
    timestamp := timestamp.getD draws.now
    scopeSequence := request.scopeSequence }

structure Checked (env : Environment) (request : AppendRequest) (draws : Draws)
    (c : CheckedAppend) : Prop where
  scope : normalizeScope request.scope request.threadId = .ok c.scope
  key : boundedIdentifier request.operationKey "operation key" 512 = .ok c.operationKey
  eventType : boundedIdentifier request.eventType "event type" 128 = .ok c.eventType
  operationId : optionalIdentifier request.operationId "operation id" 256 = .ok c.operationId
  sequence : c.scopeSequence = request.scopeSequence ∧ c.scopeSequence ≠ some 0
  timestamp : ∃ given, optionalIdentifier request.timestamp "event timestamp" 64 = .ok given ∧
    c.timestamp = given.getD draws.now ∧ c.fingerprint =
      env.sha256 (.event c.scope c.eventType c.payload given request.scopeSequence)
  payload : projectPayload c.eventType request.payload = .ok c.payload
  bytes : c.payloadBytes = env.payloadBytes c.payload ∧
    env.payloadBytes c.payload ≤ env.maxEventPayloadBytes
  eventId : boundedIdentifier
    ((request.eventId.filter (· ≠ "")).getD ("evt_" ++ draws.uuid)) "event id" 128 = .ok c.eventId

theorem checkAppend_checked {env : Environment} {request : AppendRequest} {draws : Draws}
    {c : CheckedAppend} (h : checkAppend env request draws = .ok c) :
    Checked env request draws c := by
  unfold checkAppend at h
  obtain ⟨scope, hscope, h⟩ := Effect.except_bind_eq_ok.mp h
  obtain ⟨key, hkey, h⟩ := Effect.except_bind_eq_ok.mp h
  obtain ⟨eventType, htype, h⟩ := Effect.except_bind_eq_ok.mp h
  obtain ⟨operationId, hoperation, h⟩ := Effect.except_bind_eq_ok.mp h
  obtain ⟨hzero, h⟩ := Effect.refuse_bind_eq_ok.mp h
  obtain ⟨given, htime, h⟩ := Effect.except_bind_eq_ok.mp h
  obtain ⟨payload, hpayload, h⟩ := Effect.except_bind_eq_ok.mp h
  obtain ⟨hbytes, h⟩ := Effect.refuse_bind_eq_ok.mp h
  obtain ⟨eventId, hid, h⟩ := Effect.except_bind_eq_ok.mp h
  cases h
  exact ⟨hscope, hkey, htype, hoperation, ⟨rfl, hzero⟩, ⟨given, htime, rfl, rfl⟩, hpayload,
    ⟨rfl, Nat.not_lt.mp hbytes⟩, hid⟩

def ledgerRecord (row : LedgerRow) (payload : Payload) : Record :=
  ⟨row.cursor, row.eventId, row.scope, row.eventType, payload, row.timestamp, row.operationId,
    row.scopeSequence⟩

/-- `_event_row`. -/
def eventRecord (row : EventRow) : Record :=
  ⟨row.cursor, row.eventId, row.scope, row.eventType, row.payload, row.timestamp,
    row.operationId, row.scopeSequence⟩

/-! ## Tombstones -/

def eventTombstoneKey (env : Environment) (operationKey : String) : String :=
  env.sha256 (.tombstone "event" operationKey)

def outboxTombstoneKey (env : Environment) (operationId : String) : String :=
  env.sha256 (.tombstone "outbox" operationId)

def requireTombstoneCapacity (env : Environment) (count additional : Nat) :
    Except JournalError Unit :=
  if count + additional > env.maxOperationTombstones then
    .error (.capacity "The event journal idempotency tombstone capacity is exhausted.")
  else .ok ()

def addTombstones (env : Environment) (db : Database) (keys : List String) :
    Except JournalError Database :=
  let newKeys := keys.filter fun k => k ∉ db.tombstones
  if newKeys.isEmpty then .ok db
  else do
    requireTombstoneCapacity env db.tombstones.length newKeys.length
    if newKeys.Nodup then .ok { db with tombstones := db.tombstones ++ newKeys }
    else .error .integrity

def hasEventOf (db : Database) (operationId : String) : Bool :=
  db.events.any fun e => e.operationId = some operationId

def hasEventKey (db : Database) (operationKey : String) : Bool :=
  db.events.any fun e => e.operationKey = operationKey

def isPending (db : Database) (operationId : String) : Bool :=
  match db.outbox.get? operationId with
  | some row => row.pending.isSome
  | none => false

def isOrphan (db : Database) (operationKey : String) (row : LedgerRow) : Bool :=
  !hasEventKey db operationKey &&
    match row.operationId with
    | some id => !hasEventOf db id && !isPending db id
    | none => true

/-- `ORDER BY ledger.cursor DESC, ledger.operation_key DESC`. -/
def orphanRows (db : Database) : List (String × LedgerRow) :=
  (db.ledger.entries.filter fun e => isOrphan db e.1 e.2).insertionSort fun a b =>
    b.2.cursor < a.2.cursor ∨ (b.2.cursor = a.2.cursor ∧ b.1 ≤ a.1)

/-- What is retired together: the rows of one operation, or a row of its own. -/
inductive Group where
  | operation (operationId : String)
  | key (operationKey : String)
  deriving DecidableEq

def groupOf (operationKey : String) (row : LedgerRow) : Group :=
  match row.operationId with
  | some id => .operation id
  | none => .key operationKey

/-- `groups.setdefault(group, []).append(operation_key)` over the rows. -/
def orphanGroups (rows : List (String × LedgerRow)) : Dict Group (List String) :=
  rows.foldl (fun groups e =>
    let group := groupOf e.1 e.2
    groups.set group ((groups.get? group).getD [] ++ [e.1])) Dict.empty

/-- The keys beyond the row limit; after the first group that does not fit none does. -/
def keysToExpire (remaining : Nat) : List (List String) → List String
  | [] => []
  | keys :: rest =>
    if keys.length ≤ remaining then keysToExpire (remaining - keys.length) rest
    else (keys :: rest).flatten

/-- The applied operations with neither events nor ledger rows left, newest first. -/
def emptyOperations (db : Database) : List (String × OutboxRow) :=
  (db.outbox.entries.filter fun e =>
    e.2.pending.isNone && !hasEventOf db e.1 &&
      !db.ledger.values.any fun r => r.operationId = some e.1).reverse

def operationsToExpire (env : Environment) (db : Database) : List String :=
  let rows := emptyOperations db
  (rows.filter fun e => e.2.hasEvents).map Prod.fst ++
    ((rows.filter fun e => !e.2.hasEvents).map Prod.fst).drop env.maxOrphanedMetadataRows

/-- The first half of `_prune_orphaned_metadata`: ledger and legacy rows. -/
def pruneLedger (env : Environment) (db : Database) : Except JournalError Database := do
  let keys := keysToExpire env.maxOrphanedMetadataRows (orphanGroups (orphanRows db)).values
  let marked ← addTombstones env db (keys.map (eventTombstoneKey env))
  let ledger := marked.ledger.filter fun k _ => k ∉ keys
  return { marked with
    ledger := ledger
    legacyImports := marked.legacyImports.filter fun _ r =>
      ledger.contains r.operationKey || hasEventKey marked r.operationKey }

def pruneOperations (env : Environment) (db : Database) : Except JournalError Database := do
  let ids := operationsToExpire env db
  let marked ← addTombstones env db (ids.map (outboxTombstoneKey env))
  return { marked with outbox := marked.outbox.filter fun k _ => k ∉ ids }

def pruneOrphanedMetadata (env : Environment) (db : Database) : Except JournalError Database :=
  pruneLedger env db >>= pruneOperations env

def ScopeState.fresh : ScopeState := ⟨1, 0, 0, 0, 0⟩

def scopeState (db : Database) (scope : Scope) : ScopeState :=
  (db.scopes.get? scope).getD .fresh

def setScope (db : Database) (scope : Scope) (f : ScopeState → ScopeState) : Database :=
  { db with scopes := db.scopes.set scope (f (scopeState db scope)) }

/-- The loop of `_enforce_scope_retention`: count, bytes and last cursor of the oldest
events that bring the scope under its limits, sparing the newest. -/
def evictionScan (excessCount excessBytes retained : Nat) :
    List EventRow → Nat × Nat × Nat → Nat × Nat × Nat
  | [], acc => acc
  | row :: rest, (count, bytes, through) =>
    if (count < excessCount ∨ bytes < excessBytes) ∧ 1 < retained - count then
      evictionScan excessCount excessBytes retained rest
        (count + 1, bytes + row.payloadBytes, row.cursor)
    else (count, bytes, through)

/-- `DELETE FROM events WHERE scope = ? AND scope_id = ? AND cursor <= ?`. -/
def deleteThrough (db : Database) (scope : Scope) (through : Nat) : Database :=
  { db with events := db.events.filter fun e => !(e.scope = scope && e.cursor ≤ through) }

/-- `_enforce_scope_retention`, with whether it deleted. -/
def enforceScopeRetention (db : Database) (scope : Scope) (snapshot maxCount maxBytes : Nat) :
    Database × Bool :=
  let state := scopeState db scope
  let excessCount := state.retainedCount - maxCount
  let excessBytes := state.retainedBytes - maxBytes
  if excessCount = 0 ∧ excessBytes = 0 then (db, false)
  else
    let (count, bytes, through) := evictionScan excessCount excessBytes state.retainedCount
      (db.events.filter fun e => e.scope = scope) (0, 0, 0)
    if through = 0 then (db, false)
    else
      (setScope (deleteThrough db scope through) scope fun s =>
        { s with
          minimumCursor := max s.minimumCursor through
          snapshotCursor := max s.snapshotCursor snapshot
          retainedCount := s.retainedCount - count
          retainedBytes := s.retainedBytes - bytes }, true)

def retentionLimits (env : Environment) : Scope → Nat × Nat
  | .thread _ => (env.maxEventsPerThread, env.maxThreadEventBytes)
  | _ => (env.maxEventsPerNonThreadScope, env.maxNonThreadEventBytes)

def lifecycleEvents : List String :=
  ["run.started", "run.completed", "run.failed", "run.cancelled", "run.interrupted"]

def projectLifecycle (db : Database) (threadId : String) (row : EventRow) : Database :=
  if row.eventType ∈ lifecycleEvents then
    let runId := match (Json.field? row.payload "run_id").bind Json.str? with
      | some s => if 1 ≤ s.length ∧ s.length ≤ 256 then some s else none
      | none => none
    let entry : LifecycleRow := ⟨row.eventType, runId, row.timestamp, row.cursor⟩
    match db.lifecycle.get? threadId with
    | some old =>
      if old.cursor < row.cursor then
        { db with lifecycle := db.lifecycle.set threadId entry }
      else db
    | none => { db with lifecycle := db.lifecycle.set threadId entry }
  else db

/-- `_indexable_transcript_text`. -/
def indexableText (env : Environment) : Option Json → Option String
  | some (.str s) => if env.mentionsCredential s then none else some s
  | _ => none

def Transcript.bytesOf (t : Transcript) (key : String × Nat) : Nat :=
  match t.rows.get? key with
  | some row => PyText.utf8Length row.text
  | none => 0

def Transcript.discard (t : Transcript) (key : String × Nat) : Transcript :=
  { t with rows := t.rows.erase key, usedBytes := t.usedBytes - t.bytesOf key }

/-- `ORDER BY cursor ASC LIMIT 1` over the other messages. -/
def Transcript.oldestOther (t : Transcript) (key : String × Nat) :
    Option ((String × Nat) × TranscriptRow) :=
  ((t.rows.entries.filter fun e => e.1 ≠ key).insertionSort fun a b =>
    a.2.cursor ≤ b.2.cursor).head?

/-- The eviction loop of `_project_transcript_message`; the fuel is the row count. -/
def Transcript.makeRoom (env : Environment) (key : String × Nat) (textBytes : Nat)
    (existing : Bool) : Nat → Transcript → Transcript
  | 0, t => t
  | fuel + 1, t =>
    if t.usedBytes + textBytes > env.maxTranscriptBytes ∨
        t.rows.entries.length + (if existing then 0 else 1) > env.maxTranscriptMessages then
      match t.oldestOther key with
      | none => t
      | some (old, row) =>
        Transcript.makeRoom env key textBytes existing fuel
          ⟨t.rows.erase old, t.usedBytes - PyText.utf8Length row.text, false⟩
    else t

def messageSequence (row : EventRow) : Except JournalError (Option Nat) :=
  if row.eventType = "message.created" ∨ row.eventType = "message.completed" then
    .ok (some row.scopeSequence)
  else if row.eventType = "message.updated" ∨ row.eventType = "message.removed" then
    match (Json.field? row.payload "message_sequence").bind Json.int? with
    | some n =>
      if 1 ≤ n then
        if n.toNat ≤ maxSqlInteger then .ok (some n.toNat) else .error .overflow
      else .ok none
    | none => .ok none
  else .ok none

/-- The first retained creation or completion of a message. -/
def originalCursor (db : Database) (threadId : String) (sequence : Nat) : Option Nat :=
  ((db.events.filter fun e =>
    e.scope = .thread threadId && e.scopeSequence = sequence &&
      (e.eventType = "message.created" || e.eventType = "message.completed")).map
    EventRow.cursor).head?

/-- Index a visible text, evicting the oldest others to make room. -/
def Transcript.store (env : Environment) (t : Transcript) (key : String × Nat)
    (row : TranscriptRow) : Transcript :=
  let textBytes := PyText.utf8Length row.text
  if textBytes > env.maxTranscriptBytes then { t.discard key with complete := false }
  else
    let room := Transcript.makeRoom env key textBytes (t.rows.contains key)
      t.rows.entries.length { t with usedBytes := t.usedBytes - t.bytesOf key }
    ⟨room.rows.set key row, room.usedBytes + textBytes, room.complete⟩

/-- A list or an object, which a set cannot be asked for. -/
def isUnhashable : Option Json → Bool
  | some (.arr _) => true
  | some (.obj _) => true
  | _ => false

/-- `_project_transcript_message`. -/
def projectTranscript (env : Environment) (db : Database) (threadId : String) (row : EventRow) :
    Except JournalError Database := do
  match ← messageSequence row with
  | none => return db
  | some sequence =>
    let key := (threadId, sequence)
    let t := db.transcript
    if row.eventType = "message.removed" then
      return { db with transcript := t.discard key }
    else do
      refuse (isUnhashable (Json.field? row.payload "role")) .unhashable
      let prior := (t.rows.get? key).bind TranscriptRow.anchorCursor
      let anchor :=
        if row.eventType = "message.updated" then prior.or (originalCursor db threadId sequence)
        else some row.cursor
      match (Json.field? row.payload "role").bind Json.str?,
        indexableText env (Json.field? row.payload "text") with
      | some role, some text =>
        if role = "user" ∨ role = "assistant" then
          let stored := t.store env key ⟨row.cursor, anchor, role, text, row.timestamp⟩
          return { db with transcript := stored }
        else
          return { db with transcript := t.discard key }
      | _, _ =>
        return { db with transcript := t.discard key }

def newEvent (db : Database) (c : CheckedAppend) : EventRow where
  cursor := db.lastCursor + 1
  operationKey := c.operationKey
  operationId := c.operationId
  eventId := c.eventId
  scope := c.scope
  scopeSequence := c.scopeSequence.getD (scopeState db c.scope).nextSequence
  eventType := c.eventType
  payload := c.payload
  payloadBytes := c.payloadBytes
  timestamp := c.timestamp

/-- A unique column of `events` already has the value. -/
def collides (db : Database) (row : EventRow) : Bool :=
  db.events.any fun e =>
    e.operationKey = row.operationKey || e.eventId = row.eventId ||
      (e.scope = row.scope && e.scopeSequence = row.scopeSequence)

def insertEvent (db : Database) (c : CheckedAppend) : Database :=
  let row := newEvent db c
  setScope
    { db with
      events := db.events ++ [row]
      lastCursor := db.lastCursor + 1
      ledger := db.ledger.set c.operationKey
        ⟨c.fingerprint, row.cursor, row.eventId, row.operationId, row.scope, row.scopeSequence,
          row.eventType, row.timestamp⟩ }
    c.scope fun s =>
      { s with
        nextSequence := max s.nextSequence (row.scopeSequence + 1)
        retainedCount := s.retainedCount + 1
        retainedBytes := s.retainedBytes + row.payloadBytes }

def projectEvent (env : Environment) (db : Database) (row : EventRow) :
    Except JournalError Database :=
  match row.scope with
  | .thread threadId => projectTranscript env (projectLifecycle db threadId row) threadId row
  | _ => .ok db

def retain (env : Environment) (db : Database) (row : EventRow) : Except JournalError Database :=
  let limits := retentionLimits env row.scope
  let (kept, deleted) := enforceScopeRetention db row.scope row.cursor limits.1 limits.2
  if deleted then pruneOrphanedMetadata env kept else .ok kept

/-- The part of `_append` inside the transaction, with whether it inserted. -/
def appendChecked (env : Environment) (db : Database) (c : CheckedAppend) (full : Bool) :
    Except JournalError (Record × Bool × Database) :=
  match db.ledger.get? c.operationKey with
  | some existing =>
    if existing.fingerprint = c.fingerprint then
      .ok (ledgerRecord existing c.payload, false, db)
    else
      .error (.keyConflict "The event operation key was reused with different content.")
  | none => do
      refuse (eventTombstoneKey env c.operationKey ∈ db.tombstones)
        (.keyExpired "The event operation key has expired from dedupe retention.")
      refuse full (.capacity "The event journal is full.")
      let row := newEvent db c
      refuse (row.scopeSequence + 1 > maxSqlInteger) .overflow
      refuse (collides db row) (.keyConflict "The event identifier or scope sequence conflicts.")
      let projected ← projectEvent env (insertEvent db c) row
      let kept ← retain env projected row
      return (eventRecord row, true, kept)

def append (env : Environment) (db : Database) (request : AppendRequest) (draws : Draws) :
    Except JournalError (Record × Bool × Database) := do
  let checked ← checkAppend env request draws
  appendChecked env db checked draws.full

structure CompactionResult where
  deletedCount : Nat
  minimumCursor : Nat
  snapshotCursor : Nat

def compact (env : Environment) (db : Database) (scope : String) (through snapshot : Nat)
    (threadId : Option String) : Except JournalError (CompactionResult × Database) := do
  let scope ← normalizeScope scope threadId
  refuse (snapshot < through) (.value "snapshot cursor is invalid")
  let removed := db.events.filter fun e => e.scope = scope && e.cursor ≤ through
  let lowered := setScope (deleteThrough db scope through) scope fun s =>
    { s with
      minimumCursor := max s.minimumCursor through
      snapshotCursor := max s.snapshotCursor snapshot
      retainedCount := s.retainedCount - removed.length
      retainedBytes := s.retainedBytes - (removed.map EventRow.payloadBytes).sum }
  let pruned ← pruneOrphanedMetadata env lowered
  let state := scopeState pruned scope
  return (⟨removed.length, state.minimumCursor, state.snapshotCursor⟩, pruned)

def Transcript.dropThread (t : Transcript) (threadId : String) : Transcript :=
  let bytes := (t.rows.entries.filter fun e => e.1.1 = threadId).map fun e =>
    PyText.utf8Length e.2.text
  { t with
    rows := t.rows.filter fun k _ => k.1 ≠ threadId
    usedBytes := t.usedBytes - bytes.sum }

def purgeThread (env : Environment) (db : Database) (threadId : String) :
    Except JournalError (CompactionResult × Database) := do
  let scope ← normalizeScope "thread" (some threadId)
  let state := scopeState db scope
  let removed := db.events.filter fun e => e.scope = scope
  let through := max state.minimumCursor ((removed.map EventRow.cursor).foldl max 0)
  let snapshot := max state.snapshotCursor through
  let purged := setScope
    { db with
      events := db.events.filter fun e => e.scope ≠ scope
      transcript := db.transcript.dropThread threadId
      lifecycle := db.lifecycle.erase threadId }
    scope fun s =>
      { s with
        minimumCursor := max s.minimumCursor through
        snapshotCursor := max s.snapshotCursor snapshot
        retainedCount := 0
        retainedBytes := 0 }
  let pruned ← pruneOrphanedMetadata env purged
  return (⟨removed.length, through, snapshot⟩, pruned)

end CodexBridge.Journal
