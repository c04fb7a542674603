import CodexBridge.Journal.Durable
import CodexBridge.Library.Runs

/-! # The store of the runtime state

One private file holds the state of the runtime. It is replaced in two ways: by a plain save, or
by an operation of the outbox that journals events with it and puts a marker into the file. The
record and its parts are models of a library that dumps and validates them.
-/

namespace CodexBridge.Runtime

open Effect Journal

/-! ## Records -/

def legacyRunFields : List String :=
  ["attachment_ids", "attachment_manifest_fingerprint", "turn_start_dispatched",
    "total_deadline_at", "workspace_context"]

def HasFields (names : List String) : Json → Prop
  | .obj fields => ∀ name ∈ names, (Json.field? fields name).isSome = true
  | _ => False

structure IsDump (revision : Nat) (payload : Payload) : Prop where
  distinct : (payload.map Prod.fst).Nodup
  unmarked : Json.field? payload "_bridge_operation" = none
  schema : Json.field? payload "schema_version" = some (.int 1)
  revision : Json.field? payload "revision" = some (.int revision)
  runs : ∃ runs, Json.field? payload "runs" = some (.obj runs) ∧
    ∀ run ∈ runs, HasFields ("prompt_fingerprint" :: legacyRunFields) run.2
  outcomes : ∃ outcomes, Json.field? payload "request_idempotency" = some (.obj outcomes) ∧
    ∀ outcome ∈ outcomes, HasFields ["run_status"] outcome.2

/-- `RuntimeStateRecord` as its library sees it, and the encodings of JSON. -/
structure RecordModel where
  Record : Type
  /-- `RuntimeStateRecord()`. -/
  fresh : Record
  revision : Record → Nat
  /-- `model_validate(state.model_dump(mode="python"))`. -/
  revalidate : Record → Option Record
  /-- `model_dump(mode="json")`. -/
  modelDump : Record → Payload
  /-- `model_validate` of an object. -/
  validate : Payload → Option Record
  fingerprint : Json → String
  /-- The length of the encoded dump, unless its text cannot be encoded. -/
  stateBytes : Payload → Option Nat
  documentBytes : Document → Nat
  /-- A valid record is dumped in full and read back from its dump. -/
  revision_revalidate : ∀ {r v}, revalidate r = some v → revision v = revision r
  revalidate_valid : ∀ {r v}, revalidate r = some v → revalidate v = some v
  dump_valid : ∀ {r}, revalidate r = some r →
    IsDump (revision r) (Json.sortedFields (modelDump r))
  validate_dump : ∀ {r}, revalidate r = some r →
    validate (Json.sortedFields (modelDump r)) = some r

/-- The dump with its keys sorted, which no reader tells from it. -/
def RecordModel.dump (m : RecordModel) (record : m.Record) : Payload :=
  Json.sortedFields (m.modelDump record)

def statePath : String := "runtime-state.json"

def maximumStateBytes : Nat := 64 * 1024 * 1024

inductive LoadError where
  /-- `RuntimeStateCorruptError`. -/
  | corrupt
  /-- `RuntimeStateVersionError`. -/
  | version
  /-- The `TypeError` of looking a list or an object up in a dictionary. -/
  | unhashable

def setDefault (fields : Payload) (key : String) (value : Json) : Payload :=
  if (Json.field? fields key).isSome then fields else fields ++ [(key, value)]

def setField (fields : Payload) (key : String) (value : Json) : Payload :=
  if (Json.field? fields key).isSome then
    fields.map fun f => if f.1 = key then (key, value) else f
  else fields ++ [(key, value)]

/-- `i == value`, where a Boolean is an integer. -/
def isEqual (i : Int) : Option Json → Bool
  | some (.int j) => i = j
  | some (.bool b) => i = if b then 1 else 0
  | _ => false

/-- `raw.pop("_bridge_operation", None)` with the check of the marker. -/
def popMarker (raw : Payload) : Except LoadError Payload :=
  let rest := raw.filter fun f => f.1 ≠ "_bridge_operation"
  match Json.field? raw "_bridge_operation" with
  | none => .ok rest
  | some .null => .ok rest
  | some (.obj marker) =>
    match Json.field? marker "operation_id", Json.field? marker "revision" with
    | some (.str operationId), some (.int revision) =>
      if Json.hasExactly marker ["operation_id", "revision"] && operationId ≠ "" &&
          1 ≤ revision && isEqual revision (Json.field? rest "revision") then .ok rest
      else .error .corrupt
    | _, _ => .error .corrupt
  | _ => .error .corrupt

section

variable (m : RecordModel)

/-- A run of an older state gets the fields it lacks. -/
def migrateRun : Json → Except LoadError Json
  | .obj run =>
    let run :=
      match Json.field? run "prompt_fingerprint", Json.field? run "prompt" with
      | none, some (.str prompt) =>
        run ++ [("prompt_fingerprint", .str (m.fingerprint (.str prompt)))]
      | _, _ => run
    let run := setDefault run "attachment_ids" (.arr [])
    let run := setDefault run "attachment_manifest_fingerprint"
      (.str (m.fingerprint (.arr [])))
    let run := setDefault run "turn_start_dispatched" (.bool false)
    let run := setDefault run "total_deadline_at" .null
    .ok (.obj (setDefault run "workspace_context" (.arr [])))
  | _ => .error .corrupt

def migrateRuns : Payload → Except LoadError Payload
  | [] => .ok []
  | (id, run) :: rest => do
      let run ← migrateRun m run
      let others ← migrateRuns rest
      return (id, run) :: others

/-- `runs.get(key)` where that must be an object. -/
def findRun (runs : Payload) : Json → Except LoadError (String × Payload)
  | .str id =>
    match Json.field? runs id with
    | some (.obj run) => .ok (id, run)
    | _ => .error .corrupt
  | .arr _ => .error .unhashable
  | .obj _ => .error .unhashable
  | _ => .error .corrupt

def migrateOutcome (runs : Payload) : Json → Except LoadError (Payload × Json)
  | .obj value =>
    if (Json.field? value "run_status").isSome then .ok (runs, .obj value)
    else do
      let (_, run) ← findRun runs ((Json.field? value "run_id").getD .null)
      let status := (Json.field? run "status").getD .null
      return (runs, .obj (value ++ [("run_status", status)]))
  | .str id => do
      let (_, run) ← findRun runs (.str id)
      let outcome (fingerprint : String) : Json := .obj
        [("run_id", .str id), ("thread_id", (Json.field? run "thread_id").getD .null),
          ("kind", .str "prompt"), ("fingerprint", .str fingerprint),
          ("status", .str "accepted"), ("run_status", (Json.field? run "status").getD .null)]
      match Json.field? run "prompt_fingerprint", Json.field? run "prompt" with
      | some (.str fingerprint), _ => return (runs, outcome fingerprint)
      | _, some (.str prompt) =>
        let fingerprint := m.fingerprint (.str prompt)
        let run := setField run "prompt_fingerprint" (.str fingerprint)
        return (setField runs id (.obj run), outcome fingerprint)
      | _, _ => .error .corrupt
  | value => .ok (runs, value)

def migrateOutcomes : Payload → Payload → Except LoadError (Payload × Payload)
  | runs, [] => .ok (runs, [])
  | runs, (id, value) :: rest => do
      let (runs, value) ← migrateOutcome m runs value
      let (runs, others) ← migrateOutcomes runs rest
      return (runs, (id, value) :: others)

/-- The migrations of `load`, for a state with runs and outcomes. -/
def migrate (raw : Payload) : Except LoadError Payload :=
  match Json.field? raw "request_idempotency", Json.field? raw "runs" with
  | some (.obj outcomes), some (.obj runs) => do
      let runs ← migrateRuns m runs
      let (runs, outcomes) ← migrateOutcomes m runs outcomes
      return setField (setField raw "runs" (.obj runs)) "request_idempotency" (.obj outcomes)
  | _, _ => .ok raw

/-- What `load` makes of the object in the file. -/
def loadRaw (raw : Payload) : Except LoadError m.Record := do
  let raw ← popMarker raw
  let raw := setDefault raw "schema_version" (.int 1)
  refuse (isEqual 1 (Json.field? raw "schema_version") = false) .version
  let raw ← migrate m raw
  match m.validate raw with
  | none => .error .corrupt
  | some record => .ok record

end

/-- What `load` finds: the size of the file, and the object in it unless there is none. -/
structure StoredFile where
  bytes : Nat
  raw : Option Payload

def load (m : RecordModel) : Option StoredFile → Except LoadError m.Record
  | none => .ok m.fresh
  | some file =>
    if maximumStateBytes < file.bytes then .error .corrupt
    else
      match file.raw with
      | none => .error .corrupt
      | some raw => loadRaw m raw

inductive Replacement where
  | done
  | failsBefore
  | failsAfter
  deriving DecidableEq

structure EventSave where
  events : List EventDraft
  additionalWrites : List OutboxWrite
  uuid : String
  draws : CommitDraws
  failure : Option (Nat × Failure)
  isRefused : Bool
  replacement : Replacement

/-- The journal with its outbox and the state files. The last fields record what the calls of
the store did: the records they accepted, the ones of those that returned, and the last one if
it returned. -/
structure World (m : RecordModel) where
  outbox : Outbox
  saved : Payload
  top : Option Nat
  accepted : List m.Record
  returned : List m.Record
  last : Option m.Record

def World.initial (m : RecordModel) (files : Dict String StateFile) : World m :=
  ⟨Outbox.initial (files.erase statePath), [], none, [], [], none⟩

def documentRaw (document : Document) : Payload :=
  ("_bridge_operation", .obj [("operation_id", .str document.operationId),
    ("revision", .int document.revision)]) :: document.body

/-- `save_with_events` goes through the outbox. -/
def EventSave.isJournaled (call : EventSave) : Bool :=
  !call.events.isEmpty || !call.additionalWrites.isEmpty

def operationId (revision : Nat) (uuid : String) : String :=
  "runtime-state:" ++ toString revision ++ ":" ++ uuid

def recordDocument (m : RecordModel) (uuid : String) (record : m.Record) : Document :=
  ⟨operationId (m.revision record) uuid, m.revision record, m.dump record⟩

def EventSave.operation {m : RecordModel} (call : EventSave) (record : m.Record) : Operation where
  operationId := operationId (m.revision record) call.uuid
  writes := ⟨statePath, m.revision record, m.dump record⟩ :: call.additionalWrites
  events := call.events

namespace World

variable {m : RecordModel}

def file (w : World m) : Option StoredFile :=
  match w.outbox.files.get? statePath with
  | none => none
  | some (.unreadable _) => some ⟨0, none⟩
  | some .unmarked => some ⟨(m.stateBytes w.saved).getD 0, some w.saved⟩
  | some (.marked document _) => some ⟨m.documentBytes document, some (documentRaw document)⟩

def load (w : World m) : Except LoadError m.Record := Runtime.load m w.file

def atomicSave (w : World m) (record : m.Record) (replacement : Replacement) : World m :=
  if replacement = .failsBefore then w
  else { w with
    outbox := { w.outbox with files := w.outbox.files.set statePath .unmarked }
    saved := m.dump record }

def ends (w : World m) (record : m.Record) (returns : Bool) : World m :=
  { w with
    returned := if returns then w.returned ++ [record] else w.returned
    last := if returns then some record else none }

end World

def validatedPayload (m : RecordModel) (state : m.Record) : Option m.Record :=
  match m.revalidate state with
  | none => none
  | some record =>
    match m.stateBytes (m.dump record) with
    | none => none
    | some bytes => if maximumStateBytes < bytes then none else some record

namespace World

variable {m : RecordModel}

def calls (w : World m) (state : m.Record) : World m :=
  { w with top := some (m.revision state), last := none }

def accepts (w : World m) (record : m.Record) : World m :=
  { w with accepted := w.accepted ++ [record] }

def save (w : World m) (state : m.Record) (replacement : Replacement) : World m :=
  match validatedPayload m state with
  | none => w
  | some record =>
    ((w.accepts record).atomicSave record replacement).ends record (replacement = .done)

/-- `commit_operation` for a record, or a refusal before its row is there. -/
def commitRecord (env : Environment) (w : World m) (record : m.Record) (call : EventSave) :
    World m :=
  let started := { w.outbox with failure := call.failure }
  if call.isRefused then
    { w with outbox := (ensureReconciled env call.draws.isFull started).2 }
  else
    match commitOperation env (call.operation record) call.draws started with
    | (.ok _, outbox) => { w with outbox := outbox }.ends record true
    | (.error _, outbox) => { w with outbox := outbox }

/-- `save_with_events`; without an outbox it raises after a plain save. -/
def saveWithEvents (env : Environment) (hasOutbox : Bool) (w : World m) (state : m.Record)
    (call : EventSave) : World m :=
  match validatedPayload m state with
  | none => w
  | some record =>
    if !call.isJournaled then w.save record call.replacement
    else if !hasOutbox then
      { w.save record call.replacement with last := none, returned := w.returned }
    else if m.revision record < 1 then w
    else (w.accepts record).commitRecord env record call

end World

inductive Step (m : RecordModel) where
  | save (state : m.Record) (replacement : Replacement)
  | saveWithEvents (state : m.Record) (call : EventSave)
  | journal (call : Call)

/-- A call on the journal that leaves the state file alone. -/
def isElsewhere : Call → Bool
  | .append request _ => !isOutboxKey request.operationKey
  | .commit operation _ _ => operation.writes.all fun write => write.relativePath ≠ statePath
  | _ => true

def World.isNewer {m : RecordModel} (w : World m) (state : m.Record) : Bool :=
  match w.top with
  | none => true
  | some top => top < m.revision state

def World.isFresh {m : RecordModel} (w : World m) (state : m.Record) (uuid : String) : Bool :=
  operationId (m.revision state) uuid ∉ w.outbox.prepared.map Envelope.operationId

def World.next (env : Environment) (hasOutbox : Bool) {m : RecordModel} (w : World m) :
    Step m → Option (World m)
  | .save state replacement =>
    if w.isNewer state then some ((w.calls state).save state replacement) else none
  | .saveWithEvents state call =>
    if w.isNewer state && w.isFresh state call.uuid then
      some ((w.calls state).saveWithEvents env hasOutbox state call)
    else none
  | .journal call =>
    if isElsewhere call then some { w with outbox := w.outbox.perform env call } else none

end CodexBridge.Runtime
