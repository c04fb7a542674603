import CodexBridge.Library.Dict
import CodexBridge.Library.Json
import Mathlib.Algebra.GroupWithZero.Nat
import Mathlib.Data.List.Infix

/-! # The event journal: tables and values

The tables of the journal database. A dictionary lists its rows in the order of
first insertion, which for a table without `AUTOINCREMENT` is its `rowid` order.
Cursors count from one and are never reused.
-/

namespace CodexBridge.Journal

inductive JournalError where
  | value (message : String)
  /-- `OverflowError`: an integer beyond the range of an SQL column. -/
  | overflow
  | payloadTooLarge
  | operationTooLarge (message : String)
  | capacity (message : String)
  | admission
  | keyConflict (message : String)
  | keyExpired (message : String)
  | cursorExpired (requested minimum snapshot : Nat) (scope threadId : Option String)
  /-- `ThreadEventSequenceExpiredError`. -/
  | sequenceExpired (requested minimum snapshot : Nat) (threadId : String)
  | stateConflict (message : String)
  /-- A plain `EventStoreError`. -/
  | store (message : String)
  /-- An `sqlite3.IntegrityError` nothing translates. -/
  | integrity
  /-- The `TypeError` of looking up a list or an object in a set. -/
  | unhashable
  /-- The `IndexError` of `path.parts[0]` on a path without parts. -/
  | index
  /-- `InjectedOutboxCrash`, or the process dies. -/
  | crash
  deriving DecidableEq

/-! ## Scopes -/

inductive ScopeName where
  | auth | runtime | thread
  deriving DecidableEq

def ScopeName.text : ScopeName → String
  | .auth => "auth"
  | .runtime => "runtime"
  | .thread => "thread"

/-- A normalised scope: only thread events carry a thread. -/
inductive Scope where
  | auth
  | runtime
  | thread (threadId : String)
  deriving DecidableEq

def Scope.name : Scope → ScopeName
  | .auth => .auth
  | .runtime => .runtime
  | .thread _ => .thread

def Scope.threadId : Scope → Option String
  | .thread id => some id
  | _ => none

def Scope.id : Scope → String
  | .thread id => id
  | _ => ""

def boundedIdentifier (value : String) (field : String) (maximum : Nat) :
    Except JournalError String :=
  if value.length ≤ maximum && PyText.isTrimmed value &&
      value.toList.all (fun c => 32 ≤ c.toNat && c.toNat ≠ 127) then .ok value
  else .error (.value (field ++ " is invalid"))

def normalizeScope (scope : String) (threadId : Option String) : Except JournalError Scope :=
  if scope = "thread" then
    match threadId with
    | some id => (boundedIdentifier id "thread id" 128).map .thread
    | none => .error (.value "thread id is invalid")
  else if scope = "auth" ∨ scope = "runtime" then
    if threadId.isSome then .error (.value "only thread events may include a thread id")
    else .ok (if scope = "auth" then .auth else .runtime)
  else .error (.value "event scope is invalid")

/-- A payload after a JSON round trip, its fields in key order. -/
abbrev Payload := List (String × Json)

def publicEventFields : String → Option (List String)
  | "goal.updated" => some ["revision", "status"]
  | "task.accepted" => some ["task_id", "run_id", "status"]
  | "task.interaction_needed" => some ["task_id", "run_id", "kind"]
  | "task.result" => some ["task_id", "run_id", "status"]
  | "auth.status_changed" =>
    some ["revision", "state", "busy", "auth_required", "auth_mode", "plan_type", "updated_at"]
  | "thread.created" =>
    some ["title", "project_id", "project_name", "workspace_id", "mode", "model_override",
      "thinking_override", "created_at"]
  | "attachment.added" =>
    some ["attachment_id", "filename", "mime_type", "relative_path", "size_bytes", "sha256"]
  | "artifact.added" =>
    some ["artifact_id", "filename", "mime_type", "relative_path", "size_bytes", "source"]
  | "interaction.created" =>
    some ["interaction_id", "kind", "thread_id", "event_id", "status", "expires_at", "display",
      "allowed_actions"]
  | "interaction.resolved" => some ["interaction_id", "status"]
  | "interaction.expired" => some ["interaction_id"]
  | "interaction.outcome_unknown" => some ["interaction_id"]
  | "mcp.elicitation_declined" => some ["run_id", "server_name", "reason"]
  | "codex.event" => some ["run_id", "provider_event_type"]
  | "message.created" => some ["run_id", "role", "text", "client_request_id", "queued"]
  | "message.completed" => some ["run_id", "role", "text"]
  | "message.updated" => some ["run_id", "message_sequence", "role", "text"]
  | "message.removed" => some ["run_id", "message_sequence"]
  | "run.queue_item_updated" => some ["run_id", "prompt", "revision"]
  | "legacy.event" => some ["legacy_event_type"]
  | _ => none

/-- `_public_event_payload`, then `_canonical_payload`. -/
def projectPayload (eventType : String) : Json → Except JournalError Payload
  | .obj fields =>
    .ok (Json.sortedFields (match publicEventFields eventType with
      | some kept => fields.filter fun f => f.1 ∈ kept
      | none => fields))
  | _ => .error (.value "event payload must be an object")

structure EventRow where
  cursor : Nat
  operationKey : String
  operationId : Option String
  eventId : String
  scope : Scope
  scopeSequence : Nat
  eventType : String
  payload : Payload
  payloadBytes : Nat
  timestamp : String
  deriving DecidableEq

structure LedgerRow where
  fingerprint : String
  cursor : Nat
  eventId : String
  operationId : Option String
  scope : Scope
  scopeSequence : Nat
  eventType : String
  timestamp : String

structure ScopeState where
  nextSequence : Nat
  minimumCursor : Nat
  snapshotCursor : Nat
  retainedCount : Nat
  retainedBytes : Nat

structure TranscriptRow where
  cursor : Nat
  anchorCursor : Option Nat
  role : String
  text : String
  timestamp : String

structure Transcript where
  rows : Dict (String × Nat) TranscriptRow
  usedBytes : Nat
  complete : Bool

structure LifecycleRow where
  eventType : String
  runId : Option String
  timestamp : String
  cursor : Nat

structure LegacyRow where
  fingerprint : String
  operationKey : String

/-- The canonical JSON of a state file written by an operation. -/
structure Document where
  operationId : String
  revision : Nat
  body : Payload
  deriving DecidableEq

structure EnvelopeWrite where
  relativePath : String
  document : Document
  deriving DecidableEq

structure EnvelopeEvent where
  operationKey : String
  eventId : String
  scope : Scope
  eventType : String
  payload : Payload
  timestamp : String
  deriving DecidableEq

/-- What `outbox_operations.payload_json` holds until the operation is applied. -/
structure Envelope where
  operationId : String
  writes : List EnvelopeWrite
  events : List EnvelopeEvent
  deriving DecidableEq

/-- A row of `outbox_operations`: pending with its envelope, or applied. -/
structure OutboxRow where
  fingerprint : String
  pending : Option Envelope
  hasEvents : Bool

/-- The texts that are hashed. Each encoding is injective, so the value stands for
its text. -/
inductive Digest where
  | event (scope : Scope) (eventType : String) (payload : Payload) (timestamp : Option String)
      (scopeSequence : Option Nat)
  | tombstone (kind value : String)
  | operation (operationId : String) (writes : List EnvelopeWrite)
      (events : List (EnvelopeEvent × Option String))
  | identity (operationId : String) (index : Nat)

/-- Limits of the store and the outbox, and the library functions they use. -/
structure Environment where
  maxEventPayloadBytes : Nat
  maxBatchEvents : Nat
  maxBatchPayloadBytes : Nat
  maxEventsPerThread : Nat
  maxThreadEventBytes : Nat
  maxEventsPerNonThreadScope : Nat
  maxNonThreadEventBytes : Nat
  maxTranscriptBytes : Nat
  maxTranscriptMessages : Nat
  maxOrphanedMetadataRows : Nat
  maxOperationTombstones : Nat
  maxOperationEvents : Nat
  maxOperationWrites : Nat
  maxOperationBytes : Nat
  positive : 0 < maxBatchEvents ∧ 0 < maxEventsPerThread ∧ 0 < maxEventsPerNonThreadScope ∧
    0 < maxOrphanedMetadataRows ∧ 0 < maxOperationTombstones
  messages : 0 < maxTranscriptMessages
  /-- `hashlib.sha256(…).hexdigest()`. -/
  sha256 : Digest → String
  payloadBytes : Payload → Nat
  envelopeBytes : Envelope → Nat
  /-- `_TRANSCRIPT_CREDENTIAL_PATTERN.search`. -/
  mentionsCredential : String → Bool

structure Database where
  events : List EventRow
  lastCursor : Nat
  ledger : Dict String LedgerRow
  scopes : Dict Scope ScopeState
  outbox : Dict String OutboxRow
  tombstones : List String
  legacyImports : Dict String LegacyRow
  transcript : Transcript
  lifecycle : Dict String LifecycleRow

def Database.empty : Database :=
  ⟨[], 0, Dict.empty, Dict.empty, Dict.empty, [], Dict.empty, ⟨Dict.empty, 0, true⟩, Dict.empty⟩

structure Record where
  cursor : Nat
  eventId : String
  scope : Scope
  eventType : String
  payload : Payload
  timestamp : String
  operationId : Option String
  scopeSequence : Nat
  deriving DecidableEq

/-- The default limits, with legible stand-ins for the library functions. -/
def sampleEnvironment : Environment where
  maxEventPayloadBytes := 1048576
  maxBatchEvents := 256
  maxBatchPayloadBytes := 4194304
  maxEventsPerThread := 25000
  maxThreadEventBytes := 52428800
  maxEventsPerNonThreadScope := 25000
  maxNonThreadEventBytes := 52428800
  maxTranscriptBytes := 134217728
  maxTranscriptMessages := 131072
  maxOrphanedMetadataRows := 32768
  maxOperationTombstones := 524288
  maxOperationEvents := 20000
  maxOperationWrites := 16
  maxOperationBytes := 83886080
  positive := by decide
  messages := by decide
  sha256 := fun
    | .event scope eventType _ _ _ => "event:" ++ eventType ++ ":" ++ scope.id
    | .tombstone kind value => kind ++ ":" ++ value
    | .operation operationId _ _ => "operation:" ++ operationId
    | .identity operationId index => operationId ++ ":" ++ toString index
  payloadBytes := fun payload => 2 + 16 * payload.length
  envelopeBytes := fun envelope => 512 * (1 + envelope.writes.length + envelope.events.length)
  mentionsCredential := fun _ => false

end CodexBridge.Journal
