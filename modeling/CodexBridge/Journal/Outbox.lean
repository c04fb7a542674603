import CodexBridge.Journal.Append

/-! # The durable outbox

An operation writes state files and appends events. Its row is committed first,
then its files are replaced one by one, and one last transaction appends its
events and marks the row applied. A call may fail at any point where it touches
the file system, or the process may die there; a call carries where it does.
-/

namespace CodexBridge.Journal

open Effect

structure OutboxWrite where
  relativePath : String
  stateRevision : Nat
  statePayload : Payload

structure EventDraft where
  scope : String
  eventType : String
  payload : Json
  threadId : Option String
  timestamp : Option String

structure Operation where
  operationId : String
  writes : List OutboxWrite
  events : List EventDraft

/-! ## Checking and encoding an operation -/

def relativeStatePath (value : String) : Except JournalError String :=
  if value = "" ∨ value.toList.any (fun c => c = '\\' || c.toNat < 32) then
    .error (.value "state path is invalid")
  else if value = "." then .error .index
  else
    let parts := value.toList.splitOn '/'
    if parts.any (fun part => part = [] || part = ['.'] || part = ['.', '.']) ||
        (parts.headD []).any (· = ':') then
      .error (.value "state path is invalid")
    else .ok value

/-- The write loop of `_validate_operation_bounds`, with the bytes so far. -/
def checkWrites (env : Environment) : Nat → List OutboxWrite → Except JournalError Nat
  | total, [] => .ok total
  | total, write :: rest => do
      let _ ← relativeStatePath write.relativePath
      refuse (write.stateRevision = 0) (.value "state revision is invalid")
      refuse ((Json.field? write.statePayload "_bridge_operation").isSome)
        (.value "state payload uses a reserved field")
      let bytes := total + env.payloadBytes (Json.sortedFields write.statePayload) + 512
      refuse (bytes > env.maxOperationBytes)
        (.operationTooLarge "The durable operation exceeds its limit.")
      checkWrites env bytes rest

def checkDrafts (env : Environment) : Nat → List EventDraft → Except JournalError Nat
  | total, [] => .ok total
  | total, draft :: rest => do
      let _ ← normalizeScope draft.scope draft.threadId
      let eventType ← boundedIdentifier draft.eventType "event type" 128
      let _ ← optionalIdentifier draft.timestamp "event timestamp" 64
      let payload ← projectPayload eventType draft.payload
      refuse (env.payloadBytes payload > env.maxEventPayloadBytes) .payloadTooLarge
      let bytes := total + env.payloadBytes payload + 512
      refuse (bytes > env.maxOperationBytes)
        (.operationTooLarge "The durable operation exceeds its limit.")
      checkDrafts env bytes rest

def validateOperationBounds (env : Environment) (operation : Operation) :
    Except JournalError Unit := do
  refuse (operation.writes.length > env.maxOperationWrites)
    (.operationTooLarge "The durable operation has too many state writes.")
  refuse (operation.events.length > env.maxOperationEvents)
    (.operationTooLarge "The durable operation has too many events.")
  let bytes ← checkWrites env 512 operation.writes
  let _ ← checkDrafts env bytes operation.events

def documentOf (operationId : String) (write : OutboxWrite) : Document :=
  ⟨operationId, write.stateRevision, Json.sortedFields write.statePayload⟩

def encodeWrites (operationId : String) : List String → List OutboxWrite →
    Except JournalError (List EnvelopeWrite)
  | _, [] => .ok []
  | seen, write :: rest => do
      let path ← relativeStatePath write.relativePath
      refuse (path ∈ seen) (.value "a durable operation cannot write state twice")
      let encoded ← encodeWrites operationId (path :: seen) rest
      return ⟨path, documentOf operationId write⟩ :: encoded

def outboxKey (operationId : String) (index : Nat) : String :=
  "outbox:" ++ operationId ++ ":" ++ toString index

def outboxEventId (env : Environment) (operationId : String) (index : Nat) : String :=
  "evt_" ++ String.ofList ((env.sha256 (.identity operationId index)).toList.take 32)

/-- The drafts from `index` on, stamped with `now` where they carry no timestamp. -/
def encodeDrafts (env : Environment) (operationId : String) (now : Nat → String) :
    Nat → List EventDraft → Except JournalError (List EnvelopeEvent)
  | _, [] => .ok []
  | index, draft :: rest => do
      let scope ← normalizeScope draft.scope draft.threadId
      let eventType ← boundedIdentifier draft.eventType "event type" 128
      let payload ← projectPayload eventType draft.payload
      let encoded ← encodeDrafts env operationId now (index + 1) rest
      return ⟨outboxKey operationId index, outboxEventId env operationId index, scope, eventType,
        payload, draft.timestamp.getD (now index)⟩ :: encoded

def operationEnvelope (env : Environment) (operation : Operation) (now : Nat → String) :
    Except JournalError Envelope := do
  refuse (operation.writes.isEmpty && operation.events.isEmpty)
    (.value "a durable operation must contain state or events")
  let writes ← encodeWrites operation.operationId [] operation.writes
  let events ← encodeDrafts env operation.operationId now 0 operation.events
  return ⟨operation.operationId, writes, events⟩

/-- The digest of an envelope; a timestamp the caller left out does not count. -/
def operationFingerprint (env : Environment) (operation : Operation) (envelope : Envelope) :
    String :=
  env.sha256 (.operation envelope.operationId envelope.writes
    ((envelope.events.map fun e => { e with timestamp := "" }).zip
      (operation.events.map EventDraft.timestamp)))

/-- What `_commit_operation_locked` does before it opens the database. -/
def checkOperation (env : Environment) (operation : Operation) (now : Nat → String) :
    Except JournalError (String × Envelope) := do
  let _ ← boundedIdentifier operation.operationId "operation id" 256
  validateOperationBounds env operation
  let envelope ← operationEnvelope env operation now
  refuse (env.envelopeBytes envelope > env.maxOperationBytes)
    (.operationTooLarge "The durable operation exceeds its limit.")
  return (operationFingerprint env operation envelope, envelope)

theorem checkOperation_eq_ok {env : Environment} {operation : Operation} {now : Nat → String}
    {fingerprint : String} {e : Envelope}
    (h : checkOperation env operation now = .ok (fingerprint, e)) :
    fingerprint = operationFingerprint env operation e ∧ e.operationId = operation.operationId ∧
      encodeWrites operation.operationId [] operation.writes = .ok e.writes ∧
        encodeDrafts env operation.operationId now 0 operation.events = .ok e.events := by
  unfold checkOperation at h
  obtain ⟨_, _, h⟩ := Effect.except_bind_eq_ok.mp h
  obtain ⟨_, _, h⟩ := Effect.except_bind_eq_ok.mp h
  obtain ⟨envelope, he, h⟩ := Effect.except_bind_eq_ok.mp h
  obtain ⟨_, h⟩ := Effect.refuse_bind_eq_ok.mp h
  cases h
  unfold operationEnvelope at he
  obtain ⟨_, he⟩ := Effect.refuse_bind_eq_ok.mp he
  obtain ⟨writes, hwrites, he⟩ := Effect.except_bind_eq_ok.mp he
  obtain ⟨events, hevents, he⟩ := Effect.except_bind_eq_ok.mp he
  cases he
  exact ⟨rfl, rfl, hwrites, hevents⟩

def requireOutboxCompletionCapacity (env : Environment) (db : Database) (hasEvents : Bool) :
    Except JournalError Unit :=
  if hasEvents then .ok ()
  else if (emptyOperations db).length ≥ env.maxOrphanedMetadataRows then
    requireTombstoneCapacity env db.tombstones.length 1
  else .ok ()

def asAdmission {α : Type} : Except JournalError α → Except JournalError α
  | .error (.capacity _) => .error .admission
  | r => r

def insertPending (db : Database) (fingerprint : String) (envelope : Envelope) : Database :=
  let row : OutboxRow := ⟨fingerprint, some envelope, !envelope.events.isEmpty⟩
  { db with outbox := db.outbox.set envelope.operationId row }

/-- The part of `_prepare` for an operation without a row. -/
def admitOperation (env : Environment) (db : Database) (fingerprint : String)
    (envelope : Envelope) (full : Bool) : Except JournalError Database := do
  refuse (outboxTombstoneKey env envelope.operationId ∈ db.tombstones)
    (.keyExpired "The durable operation id has expired from dedupe retention.")
  refuse (envelope.events.any fun e => eventTombstoneKey env e.operationKey ∈ db.tombstones)
    (.keyExpired "The event operation key has expired from dedupe retention.")
  requireOutboxCompletionCapacity env db (!envelope.events.isEmpty)
  refuse full (.capacity "The event journal is full.")
  return insertPending db fingerprint envelope

/-- What `_prepare` finds: the row is applied, was pending with an envelope, or is new. -/
inductive Preparation where
  | applied
  | resumed (envelope : Envelope)
  | admitted
  deriving DecidableEq

def prepare (env : Environment) (db : Database) (fingerprint : String) (envelope : Envelope)
    (full : Bool) : Except JournalError (Preparation × Database) :=
  match db.outbox.get? envelope.operationId with
  | some row =>
    if row.fingerprint = fingerprint then
      .ok (match row.pending with
        | some earlier => .resumed earlier
        | none => .applied, db)
    else
      .error (.keyConflict "The durable operation id was reused with different content.")
  | none => asAdmission ((admitOperation env db fingerprint envelope full).map (.admitted, ·))

def eventRequest (operationId : String) (event : EnvelopeEvent) : AppendRequest where
  operationKey := event.operationKey
  scope := event.scope.name.text
  threadId := event.scope.threadId
  eventType := event.eventType
  payload := .obj event.payload
  timestamp := some event.timestamp
  operationId := some operationId
  eventId := some event.eventId
  scopeSequence := none

/-- The append loop of `_finalize`; `isFull` answers the capacity check for a key. -/
def appendEvents (env : Environment) (operationId : String) (isFull : String → Bool) :
    List EnvelopeEvent → Database → Except JournalError (List (Record × Bool) × Database)
  | [], db => .ok ([], db)
  | event :: rest, db => do
      let (record, inserted, next) ← append env db (eventRequest operationId event)
        ⟨"", "", isFull event.operationKey⟩
      let (records, last) ← appendEvents env operationId isFull rest next
      return ((record, inserted) :: records, last)

def markApplied (db : Database) (operationId : String) : Database :=
  { db with outbox := db.outbox.update operationId fun row => { row with pending := none } }

def finalize (env : Environment) (isFull : String → Bool) (db : Database) (envelope : Envelope) :
    Except JournalError (List (Record × Bool) × Database) := do
  refuse (!db.outbox.contains envelope.operationId) (.store "A durable operation is unavailable.")
  let (records, appended) ← appendEvents env envelope.operationId isFull envelope.events db
  let pruned ← pruneOrphanedMetadata env (markApplied appended envelope.operationId)
  return (records, pruned)

def appliedRecords (db : Database) (operationId : String) :
    Nat → List EnvelopeEvent → Except JournalError (List Record)
  | _, [] => .ok []
  | index, event :: rest =>
    match db.ledger.get? (outboxKey operationId index) with
    | none => .error (.store "An applied durable operation is incomplete.")
    | some row => do
        let records ← appliedRecords db operationId (index + 1) rest
        return ledgerRecord row event.payload :: records

inductive StateFile where
  | unreadable (reason : String)
  | unmarked
  | marked (document : Document) (canonical : Bool)
  deriving DecidableEq

/-- A write against what its file holds: whether the file is to be replaced. -/
def examineWrite (operationId : String) (write : EnvelopeWrite) :
    Option StateFile → Except JournalError Bool
  | none => .ok true
  | some (.unreadable reason) => .error (.stateConflict reason)
  | some .unmarked => .ok true
  | some (.marked current _) =>
    if current.operationId = operationId ∧ current.revision = write.document.revision then
      if current = write.document then .ok false
      else .error (.stateConflict "The canonical state conflicts with its operation marker.")
    else if current.revision < write.document.revision then .ok true
    else .error (.stateConflict "The canonical state has a divergent revision.")

/-- How a call can fail outside the database. -/
inductive Failure where
  /-- `InjectedOutboxCrash`, or the process dies. -/
  | crash
  | unavailable
  | uninspectable
  | unsaved

def Failure.error : Failure → JournalError
  | .crash => .crash
  | .unavailable => .stateConflict "The canonical state path is unavailable."
  | .uninspectable => .stateConflict "The canonical state cannot be inspected."
  | .unsaved => .store "The canonical state could not be saved."

/-- The database, the state files and `DurableOutbox._reconciled`. The last three fields
belong to no instance: the failure ahead in the running call, and what was prepared and
journaled so far. -/
structure Outbox where
  db : Database
  files : Dict String StateFile
  reconciled : Bool
  failure : Option (Nat × Failure)
  prepared : List Envelope
  journaled : List Insertion

def Outbox.initial (files : Dict String StateFile) : Outbox :=
  ⟨.empty, files, false, none, [], []⟩

def point : Action Outbox JournalError Unit := fun s =>
  match s.failure with
  | none => (.ok (), s)
  | some (0, failure) => (.error failure.error, { s with failure := none })
  | some (n + 1, failure) => (.ok (), { s with failure := some (n, failure) })

/-- A database transaction: an error rolls it back. -/
def transact {α : Type} (t : Database → Except JournalError (α × Database)) :
    Action Outbox JournalError α := fun s =>
  match t s.db with
  | .ok (a, db) => (.ok a, { s with db := db })
  | .error e => (.error e, s)

def examineWrites (operationId : String) :
    List EnvelopeWrite → Action Outbox JournalError (List EnvelopeWrite)
  | [] => pure []
  | write :: rest => do
      point
      let file ← read fun s => s.files.get? write.relativePath
      let replaces ← lift (examineWrite operationId write file)
      let others ← examineWrites operationId rest
      pure (if replaces then write :: others else others)

def replaceState (write : EnvelopeWrite) : Action Outbox JournalError Unit :=
  modify fun s =>
    { s with files := s.files.set write.relativePath (.marked write.document true) }

def confirmWrite (write : EnvelopeWrite) : Action Outbox JournalError Unit := do
  point
  let file ← read fun s => s.files.get? write.relativePath
  require (file = some (.marked write.document true))
    (.stateConflict "The canonical state changed during durable publication.")

def applyWrites (envelope : Envelope) : Action Outbox JournalError Unit := do
  let pending ← examineWrites envelope.operationId envelope.writes
  point
  forEach pending fun write => do
    replaceState write
    point
  forEach envelope.writes confirmWrite

/-- The events a finalization inserted, by the flags its appends returned. -/
def insertionsOf (operationId : String) (events : List EnvelopeEvent)
    (results : List (Record × Bool)) : List Insertion :=
  (events.zip results).filterMap fun e =>
    if e.2.2 then some ⟨eventRequest operationId e.1, e.2.1⟩ else none

def finalizeOperation (env : Environment) (isFull : String → Bool) (envelope : Envelope) :
    Action Outbox JournalError (List Record) := do
  let results ← transact fun db => finalize env isFull db envelope
  modify fun s =>
    { s with journaled := s.journaled ++ insertionsOf envelope.operationId envelope.events results }
  pure (results.map Prod.fst)

def pendingEnvelopes (db : Database) : List Envelope :=
  db.outbox.values.filterMap OutboxRow.pending

/-- The loop of `_reconcile_locked` while `n` rows are pending. -/
def reconcileRows (env : Environment) (isFull : String → Bool) :
    Nat → Action Outbox JournalError Nat
  | 0 => do
      modify fun s => { s with reconciled := true }
      pure 0
  | n + 1 => do
      match ← read fun s => (pendingEnvelopes s.db).head? with
      | none =>
        modify fun s => { s with reconciled := true }
        pure 0
      | some envelope =>
        applyWrites envelope
        point
        let _ ← finalizeOperation env isFull envelope
        point
        let applied ← reconcileRows env isFull n
        pure (applied + 1)

def reconcile (env : Environment) (isFull : String → Bool) : Action Outbox JournalError Nat := do
  modify fun s => { s with reconciled := false }
  let n ← read fun s => (pendingEnvelopes s.db).length
  reconcileRows env isFull n

def ensureReconciled (env : Environment) (isFull : String → Bool) :
    Action Outbox JournalError Unit := do
  let reconciled ← read Outbox.reconciled
  if reconciled then pure ()
  else
    let _ ← reconcile env isFull
    pure ()

/-- What a commit draws: clock readings and the answers of the capacity checks. -/
structure CommitDraws where
  now : Nat → String
  isFull : String → Bool

/-- The part of `_commit_operation_locked` after `_prepare` left a pending row. -/
def publish (env : Environment) (isFull : String → Bool) (envelope : Envelope) :
    Action Outbox JournalError (List Record) := do
  modify fun s => { s with reconciled := false }
  point
  applyWrites envelope
  point
  let records ← finalizeOperation env isFull envelope
  point
  modify fun s => { s with reconciled := true }
  pure records

def prepareOperation (env : Environment) (isFull : String → Bool) (fingerprint : String)
    (envelope : Envelope) : Action Outbox JournalError Preparation := do
  let preparation ← transact fun db =>
    prepare env db fingerprint envelope (isFull envelope.operationId)
  modify fun s =>
    { s with prepared := s.prepared ++ (if preparation = .admitted then [envelope] else []) }
  pure preparation

def commitOperation (env : Environment) (operation : Operation) (draws : CommitDraws) :
    Action Outbox JournalError (List Record) := do
  ensureReconciled env draws.isFull
  let (fingerprint, envelope) ← lift (checkOperation env operation draws.now)
  match ← prepareOperation env draws.isFull fingerprint envelope with
  | .applied => do
      let db ← read Outbox.db
      lift (appliedRecords db envelope.operationId 0 envelope.events)
  | .resumed earlier => publish env draws.isFull earlier
  | .admitted => publish env draws.isFull envelope

end CodexBridge.Journal
