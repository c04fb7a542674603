import CodexBridge.Library.Effect
import CodexBridge.Library.Runs
import CodexBridge.Automations.Definition
import Mathlib.Data.List.Sort

/-! # The automation store

Every operation runs under the store's lock, so one call is one step. A call
edits the state in memory and then writes the whole state to the file; an error
raised between the two leaves an edit that only the memory has. The identifiers
`uuid4` returns, the clock reading and whether the file write goes through are
inputs of a call.
-/

namespace CodexBridge.Automations

open Effect

/-- The state in memory and the contents of `automations.json`, if it exists. -/
structure Store where
  state : State
  saved : Option State

def Store.initial : Store := ⟨State.empty, none⟩

/-- What a call returns to its route. -/
structure Offer where
  automationId : String
  revision : Nat
  nextRunAt : Int

inductive Reply where
  | automation (record : Automation)
  | run (run : Run)
  | offers (items : List Offer)
  | done

abbrev StoreAction := Action Store AutomationError

def edit (f : State → State) : StoreAction Unit := modify fun s => { s with state := f s.state }

/-! ## Pruning -/

/-- `_terminal_retention_key`, compared newest first. -/
def isRetainedBefore (a b : Run) : Bool :=
  let stamp := fun (r : Run) => r.completedAt.getD r.createdAt
  stamp b < stamp a || (stamp a = stamp b && decide (b.automationRunId ≤ a.automationRunId))

def beyondLimit (limit : Nat) (protectedIds : List String) (runs : List Run) : List String :=
  let protectedCount := (runs.filter fun r => r.automationRunId ∈ protectedIds).length
  let candidates := (runs.filter fun r => r.automationRunId ∉ protectedIds).insertionSort
    fun a b => isRetainedBefore a b = true
  (candidates.drop (limit - protectedCount)).map Run.automationRunId

def rebuildIdempotency (s : State) : State :=
  { s with idempotency := Dict.ofList (s.runs.entries.map fun e => (e.2.idempotencyKey, e.1)) }

def isSettled (run : Run) : Bool := !(run.status.isActive || isPendingRuntimeLink run)

/-- The `remove` set of `_prune_runs`: the limit of each automation, then the total. -/
def prunedRuns (env : Environment) (protectedIds : List String) (s : State) : List String :=
  let settled := s.runs.values.filter isSettled
  let automationIds := (settled.map Run.automationId).dedup
  let overAutomation := automationIds.flatMap fun a =>
    beyondLimit env.maxRunsPerAutomation protectedIds (settled.filter fun r => r.automationId = a)
  let survivors := (s.runs.filter fun k r => decide (k ∉ overAutomation) && isSettled r).values
  overAutomation ++ beyondLimit env.maxTotalRuns protectedIds survivors

def pruneRuns (env : Environment) (protectedIds : List String) (s : State) : State :=
  let remove := prunedRuns env protectedIds s
  if remove.isEmpty then s
  else rebuildIdempotency { s with runs := s.runs.filter fun k _ => k ∉ remove }

/-- The order of `_prune_create_requests`, newest deletion first. -/
def isDeletedAfter (a b : String × CreateRequest) : Bool :=
  match a.2.deletedAt, b.2.deletedAt with
  | some x, some y => y < x || (x = y && decide (b.1 ≤ a.1))
  | some _, none => true
  | none, some _ => false
  | none, none => decide (b.1 ≤ a.1)

/-- `_prune_create_requests`, with whether it removed any. -/
def pruneCreateRequests (env : Environment) (s : State) : State × Bool :=
  let deleted := s.createRequests.entries.filter fun e =>
    !s.automations.contains e.2.automationId
  if deleted.length ≤ env.maxDeletedCreateRequests then (s, false)
  else
    let dropped := ((deleted.insertionSort fun a b => isDeletedAfter a b = true).drop
      env.maxDeletedCreateRequests).map Prod.fst
    ({ s with createRequests := s.createRequests.filter fun k _ => k ∉ dropped }, true)

/-- `_save`. The temporary file replaces the old one last, so a failed write leaves
the old contents. -/
def save (env : Environment) (writes : Bool) : StoreAction Unit := do
  edit fun s => (pruneCreateRequests env s).1
  require writes .storage
  modify fun s => { s with saved := some s.state }

/-- `_automation`. -/
def findAutomation (automationId : String) : StoreAction Automation := do
  let id ← lift (identifier automationId "automation id")
  match ← read fun s => s.state.automations.get? id with
  | some record => pure record
  | none => raise (.notFound "automation was not found")

/-- `_run`. -/
def findRun (runId : String) : StoreAction Run := do
  let id ← lift (identifier runId "automation run id")
  match ← read fun s => s.state.runs.get? id with
  | some run => pure run
  | none => raise (.notFound "automation run was not found")

def requireRevision (record : Automation) (expectedRevision : Int) : StoreAction Unit :=
  require (expectedRevision = record.revision) (.conflict "automation revision conflict")

def editAutomation (automationId : String) (f : Automation → Automation) : StoreAction Unit :=
  edit fun s => { s with automations := s.automations.update automationId f }

def editRun (runId : String) (f : Run → Run) : StoreAction Unit :=
  edit fun s => { s with runs := s.runs.update runId f }

/-- `any(run["automation_id"] == automation_id and run["status"] in _ACTIVE_STATUSES …)`. -/
def hasActiveRun (s : State) (automationId : String) : Bool :=
  s.runs.values.any fun r => r.automationId = automationId && r.status.isActive

def createRequestId (payload : List (String × Json)) : Except AutomationError (Option String) :=
  match Json.field? payload "client_request_id" with
  | none => .ok none
  | some .null => .ok none
  | some (.str s) =>
    if PyText.isLowerHex 32 s then .ok (some s)
    else .error (.invalid "invalid create request id")
  | some _ => .error (.invalid "invalid create request id")

def createRecord (env : Environment) (payload : List (String × Json))
    (request : Option (String × String)) (automationId : String) (now : Int) (writes : Bool) :
    StoreAction Automation := do
  let record ← lift (newRecord env (.ofPayload payload) now automationId 1 (iso now) true)
  edit fun s => { s with
    automations := s.automations.set record.automationId record
    createRequests := match request with
      | some (id, fingerprint) =>
        s.createRequests.set id ⟨record.automationId, fingerprint, none⟩
      | none => s.createRequests }
  save env writes
  pure record

def create (env : Environment) (payload : List (String × Json)) (uuid : String) (now : Int)
    (writes : Bool) : StoreAction Automation := do
  let fingerprint :=
    env.createFingerprint (payload.filter fun f => f.1 ≠ "client_request_id")
  match ← lift (createRequestId payload) with
  | none => createRecord env payload none ("aut_" ++ uuid) now writes
  | some requestId =>
    match ← read fun s => s.state.createRequests.get? requestId with
    | none =>
      createRecord env payload (some (requestId, fingerprint)) ("aut_" ++ uuid) now writes
    | some prior =>
      require (prior.fingerprint = fingerprint)
        (.conflict "create request changed during retry")
      match ← read fun s => s.state.automations.get? prior.automationId with
      | some existing => pure existing
      | none => raise (.conflict "created automation was removed")

def updatableFields : List String :=
  ["name", "prompt", "target", "mode", "model", "thinking", "host_access_grant",
    "host_unattended_approved", "schedule", "notifications"]

/-- The stored form of an update: the pending occurrence stays unless the schedule
was sent, and the notification revision moves only with the settings. -/
def carryOver (record : Automation) (changes : List (String × Json)) (normalized : Automation) :
    Automation :=
  { normalized with
    nextRunAt :=
      if (Json.field? changes "schedule").isSome then normalized.nextRunAt else record.nextRunAt
    notificationsRevision :=
      if normalized.notifications = record.notifications then record.notificationsRevision
      else record.notificationsRevision + 1 }

def update (env : Environment) (automationId : String) (changes : List (String × Json))
    (expectedRevision : Int) (now : Int) (writes : Bool) : StoreAction Automation := do
  let record ← findAutomation automationId
  requireRevision record expectedRevision
  require (changes.all fun f => f.1 ∈ updatableFields) (.invalid "unsupported automation fields")
  let normalized ← lift (newRecord env (.ofChanges record changes) now automationId
    (record.revision + 1) record.createdAt record.enabled)
  let stored := carryOver record changes normalized
  edit fun s => { s with automations := s.automations.set automationId stored }
  save env writes
  pure stored

def setEnabled (env : Environment) (automationId : String) (enabled : Bool)
    (expectedRevision : Int) (now : Int) (writes : Bool) : StoreAction Automation := do
  let record ← findAutomation automationId
  requireRevision record expectedRevision
  if record.enabled = enabled then pure record
  else
    -- assigned before `_next_run` can raise
    editAutomation automationId fun r =>
      { r with enabled := enabled, revision := r.revision + 1, updatedAt := iso now }
    let next ← lift (nextRunIf env enabled record.schedule now)
    editAutomation automationId fun r => { r with nextRunAt := next }
    save env writes
    findAutomation automationId

def pause (env : Environment) (automationId : String) (expectedRevision : Int) (now : Int)
    (writes : Bool) : StoreAction Automation :=
  setEnabled env automationId false expectedRevision now writes

def resume (env : Environment) (automationId : String) (expectedRevision : Int) (now : Int)
    (writes : Bool) : StoreAction Automation :=
  setEnabled env automationId true expectedRevision now writes

def delete (env : Environment) (automationId : String) (expectedRevision : Int) (now : Int)
    (writes : Bool) : StoreAction Unit := do
  let record ← findAutomation automationId
  requireRevision record expectedRevision
  require (!record.enabled) (.conflict "automation must be paused before deletion")
  let active ← read fun s => hasActiveRun s.state automationId
  require (!active) (.conflict "automation has an active run")
  edit fun s => rebuildIdempotency { s with
    automations := s.automations.erase automationId
    createRequests := s.createRequests.mapValues fun _ r =>
      if r.automationId = automationId then { r with deletedAt := some (iso now) } else r
    runs := s.runs.filter fun _ r => r.automationId ≠ automationId }
  save env writes

def claimStatus (env : Environment) (s : State) (automationId : String) (record : Automation)
    (source : Source) (dueAt : Int) (capacityAvailable : Bool) (now : Int) : RunStatus :=
  if !record.enabled then .skippedPaused
  else if source = .scheduled ∧ dueAt < now - env.misfireGrace then .skippedMisfire
  else if hasActiveRun s automationId then .skippedOverlap
  else if !capacityAvailable then .skippedCapacity
  else .queued

/-- What a claim asks for, apart from the automation. -/
structure ClaimRequest where
  source : Source
  dueAt : Int
  idempotencyKey : String
  capacityAvailable : Bool
  webSearch : Option WebSearch

def claimedRun (runId automationId : String) (record : Automation) (request : ClaimRequest)
    (status : RunStatus) (now : Int) : Run where
  automationRunId := runId
  automationId := automationId
  source := request.source
  dueAt := iso request.dueAt
  status := status
  dispatchable := status = .queued
  idempotencyKey := request.idempotencyKey
  createdAt := iso now
  startedAt := none
  completedAt := if status = .queued then none else some (iso now)
  bridgeRunId := none
  error := none
  webSearch := request.webSearch
  threadId := none
  notifications := record.notifications
  notificationsRevision := record.notificationsRevision

def recordClaim (automationId : String) (run : Run) (s : State) : State :=
  { s with
    runs := s.runs.set run.automationRunId run
    idempotency := s.idempotency.set run.idempotencyKey run.automationRunId
    automations := s.automations.update automationId fun r =>
      { r with
        lastRunAt := .kept (run.completedAt.getD run.createdAt)
        lastStatus := .kept run.status } }

/-- The part of `_claim` that follows a key not yet in the index. -/
def claimNew (env : Environment) (automationId : String) (request : ClaimRequest)
    (expectedRevision : Int) (uuid : String) (now : Int) (writes : Bool) : StoreAction Run := do
  let record ← findAutomation automationId
  requireRevision record expectedRevision
  let status ← read fun s =>
    claimStatus env s.state automationId record request.source request.dueAt
      request.capacityAvailable now
  let run := claimedRun ("autrun_" ++ uuid) automationId record request status now
  edit (recordClaim automationId run)
  match request.source with
  | .scheduled =>
    let next ← lift (nextRunAfter env record.schedule (max request.dueAt now))
    editAutomation automationId fun r => { r with nextRunAt := next }
  | .manual => pure ()
  editAutomation automationId fun r => { r with updatedAt := iso now }
  edit (pruneRuns env [run.automationRunId])
  save env writes
  pure run

/-- `_claim`. -/
def claimKeyed (env : Environment) (automationId : String) (request : ClaimRequest)
    (expectedRevision : Int) (uuid : String) (now : Int) (writes : Bool) : StoreAction Run := do
  let key ← lift (identifier request.idempotencyKey "idempotency key")
  match ← read fun s => s.state.idempotency.get? key with
  | some existingId => findRun existingId
  | none => claimNew env automationId request expectedRevision uuid now writes

def claim (env : Environment) (automationId : String) (dueAt : String) (idempotencyKey : String)
    (expectedRevision : Int) (capacityAvailable : Bool) (webSearch : Json) (uuid : String)
    (now : Int) (writes : Bool) : StoreAction Run := do
  let due ← lift (parseDatetime env (.str dueAt) "due_at")
  let search ← lift (normalizeWebSearch webSearch)
  claimKeyed env automationId ⟨.scheduled, due, idempotencyKey, capacityAvailable, search⟩
    expectedRevision uuid now writes

def runNow (env : Environment) (automationId : String) (capacityAvailable : Bool)
    (webSearch : Json) (keyUuid uuid : String) (now : Int) (writes : Bool) :
    StoreAction Run := do
  let record ← findAutomation automationId
  let search ← lift (normalizeWebSearch webSearch)
  claimKeyed env automationId
    ⟨.manual, now, "manual:" ++ automationId ++ ":" ++ keyUuid, capacityAvailable, search⟩
    record.revision uuid now writes

/-- The outcome `complete` writes into a run. -/
def completedRun (status : RunStatus) (error : Option Json) (now : Int) (run : Run) : Run :=
  { run with
    status := status
    dispatchable := false
    completedAt := some (iso now)
    error := match error with
      | some value => some (safeError value)
      | none => run.error }

def complete (env : Environment) (runId : String) (status : RunStatus) (error : Option Json)
    (now : Int) (writes : Bool) : StoreAction Run := do
  require status.isTerminal (.invalid "automation run status is invalid")
  let run ← findRun runId
  require run.status.isActive (.conflict "automation run is already terminal")
  editRun runId (completedRun status error now)
  let _ ← findAutomation run.automationId
  editAutomation run.automationId fun r =>
    { r with
      lastRunAt := .kept (iso now)
      lastStatus := .kept status
      updatedAt := iso now }
  edit (pruneRuns env [runId])
  save env writes
  pure (completedRun status error now run)

def completeByBridgeRun (env : Environment) (bridgeRunId : String) (status : RunStatus)
    (error : Option Json) (now : Int) (writes : Bool) : StoreAction Run := do
  let bridgeRunId ← lift (identifier bridgeRunId "bridge run id")
  let runs ← read fun s => s.state.runs.values
  match runs.filter fun r => r.bridgeRunId = some bridgeRunId with
  | [run] => complete env run.automationRunId status error now writes
  | _ => raise (.notFound "automation run was not found")

def automationRunIdOf (clientRequestId : String) : Option String :=
  if "automation:".toList.isPrefixOf clientRequestId.toList then
    some (String.ofList (clientRequestId.toList.drop 11))
  else none

def completeRuntimeRun (env : Environment) (bridgeRunId clientRequestId : String)
    (unattended : Bool) (status : RunStatus) (error : Option Json) (now : Int) (writes : Bool) :
    StoreAction Run := do
  require status.isTerminal (.invalid "automation run status is invalid")
  match automationRunIdOf clientRequestId with
  | none => raise (.notFound "automation run was not found")
  | some runId =>
    require unattended (.notFound "automation run was not found")
    let bridgeRunId ← lift (identifier bridgeRunId "bridge run id")
    let run ← attempt (findRun runId) fun _ =>
      raise (.notFound "automation run was not found")
    require (run.bridgeRunId = none ∨ run.bridgeRunId = some bridgeRunId)
      (.conflict "automation runtime link conflict")
    if run.status.isActive then
      editRun runId fun r => { r with bridgeRunId := some bridgeRunId }
      complete env runId status error now writes
    else
      require (run.status = status ∧ run.bridgeRunId = some bridgeRunId)
        (.conflict "automation run is already terminal")
      pure run

def optionalIdentifier (value : Option String) (field : String) :
    Except AutomationError (Option String) :=
  match value with
  | some v => (identifier v field).map some
  | none => .ok none

def markRunning (env : Environment) (runId : String) (bridgeRunId threadId : Option String)
    (now : Int) (writes : Bool) : StoreAction Run := do
  let run ← findRun runId
  let bridgeRunId ← lift (optionalIdentifier bridgeRunId "bridge run id")
  let threadId ← lift (optionalIdentifier threadId "thread id")
  if run.status = .queued then
    editRun runId fun r =>
      { r with
        status := .running
        dispatchable := false
        startedAt := some (iso now)
        bridgeRunId := bridgeRunId.or r.bridgeRunId
        threadId := threadId.or r.threadId }
    save env writes
    findRun runId
  else
    require (run.status.isTerminal ∧ bridgeRunId.isSome ∧ run.bridgeRunId = bridgeRunId)
      (.conflict "automation run is not queued")
    if isPendingRuntimeLink run then
      editRun runId fun r => { r with startedAt := some (iso now), threadId := threadId }
      edit (pruneRuns env [runId])
      save env writes
      findRun runId
    else pure run

/-- `stored_next_run_at or _next_run(record["schedule"], now)`. -/
def keptOrNextRun (env : Environment) (record : Automation) (now : Int) :
    Except AutomationError (Option Int) :=
  match record.nextRunAt with
  | some stored => .ok (some stored)
  | none => nextRun env record.schedule now

/-- One record of the snapshot loop: whether it was rewritten, and its offer. -/
def offerAutomation (env : Environment) (now : Int) (automationId : String) :
    StoreAction (Bool × List Offer) := do
  match ← read fun s => s.state.automations.get? automationId with
  | none => pure (false, [])
  | some record =>
    if !record.enabled then pure (false, [])
    else
      let next ← lift (keptOrNextRun env record now)
      if record.nextRunAt ≠ next then
        editAutomation automationId fun r =>
          { r with nextRunAt := next, updatedAt := iso now }
      pure (decide (record.nextRunAt ≠ next),
        (next.map fun t => Offer.mk record.automationId record.revision t).toList)

def offerAutomations (env : Environment) (now : Int) : List String → StoreAction (Bool × List Offer)
  | [] => pure (false, [])
  | automationId :: rest => do
      let here ← offerAutomation env now automationId
      let later ← offerAutomations env now rest
      pure (here.1 || later.1, here.2 ++ later.2)

def isOfferedBefore (a b : Offer) : Bool :=
  a.nextRunAt < b.nextRunAt ||
    (a.nextRunAt = b.nextRunAt && decide (a.automationId ≤ b.automationId))

def schedulerSnapshot (env : Environment) (now : Int) (writes : Bool) :
    StoreAction (List Offer) := do
  let ids ← read fun s => s.state.automations.keys
  let result ← offerAutomations env now ids
  if result.1 then save env writes
  pure (result.2.insertionSort fun a b => isOfferedBefore a b = true)

/-- No delayed linkage survives a restart: the record counts as started. -/
def reconciledRun (now : Int) (run : Run) : Run :=
  { run with startedAt := some (run.completedAt.getD (iso now)) }

def interruptedRun (now : Int) (run : Run) : Run :=
  { run with
    status := .interruptedRestart
    dispatchable := false
    completedAt := some (iso now)
    error := some "automation dispatch interrupted by bridge restart" }

/-- A run of `_recover_runs_after_restart`, with the ids protected so far. -/
def recoverRun (now : Int) (acc : State × List String) (runId : String) : State × List String :=
  match acc.1.runs.get? runId with
  | none => acc
  | some run =>
    if isPendingRuntimeLink run then
      ({ acc.1 with runs := acc.1.runs.update runId (reconciledRun now) },
        acc.2 ++ [run.automationRunId])
    else if run.status = .queued ∧ run.bridgeRunId = none then
      ({ acc.1 with
          runs := acc.1.runs.update runId (interruptedRun now)
          automations := acc.1.automations.update run.automationId fun a =>
            { a with
              lastRunAt := .kept (iso now)
              lastStatus := .kept .interruptedRestart
              updatedAt := iso now } },
        acc.2 ++ [run.automationRunId])
    else acc

/-- `_recover_runs_after_restart`; a run is protected exactly when it was changed. -/
def recoverRunsAfterRestart (env : Environment) (now : Int) (writes : Bool) : StoreAction Unit := do
  let settled ← read fun s => s.state.runs.keys.foldl (recoverRun now) (s.state, [])
  edit fun _ => settled.1
  let pruned ← read fun s => (pruneCreateRequests env s.state).2
  edit fun s => (pruneCreateRequests env s).1
  if settled.2.isEmpty then
    if pruned then save env writes
  else
    edit (pruneRuns env settled.2)
    save env writes

/-- `AutomationStore.__init__` of the next process. The file holds what `_save`
wrote, so `_load` accepts it and fills in no default. -/
def restart (env : Environment) (now : Int) (writes : Bool) : StoreAction Unit := do
  modify fun s => { s with state := s.saved.getD State.empty }
  recoverRunsAfterRestart env now writes

/-- A call with its arguments, the identifiers drawn, the reading and the write. -/
inductive Call where
  | create (payload : List (String × Json)) (uuid : String) (now : Int) (writes : Bool)
  | update (automationId : String) (changes : List (String × Json)) (expectedRevision : Int)
      (now : Int) (writes : Bool)
  | pause (automationId : String) (expectedRevision : Int) (now : Int) (writes : Bool)
  | resume (automationId : String) (expectedRevision : Int) (now : Int) (writes : Bool)
  | delete (automationId : String) (expectedRevision : Int) (now : Int) (writes : Bool)
  | claim (automationId dueAt idempotencyKey : String) (expectedRevision : Int)
      (capacityAvailable : Bool) (webSearch : Json) (uuid : String) (now : Int) (writes : Bool)
  | runNow (automationId : String) (capacityAvailable : Bool) (webSearch : Json)
      (keyUuid uuid : String) (now : Int) (writes : Bool)
  | markRunning (runId : String) (bridgeRunId threadId : Option String) (now : Int)
      (writes : Bool)
  | complete (runId : String) (status : RunStatus) (error : Option Json) (now : Int)
      (writes : Bool)
  | completeByBridgeRun (bridgeRunId : String) (status : RunStatus) (error : Option Json)
      (now : Int) (writes : Bool)
  | completeRuntimeRun (bridgeRunId clientRequestId : String) (unattended : Bool)
      (status : RunStatus) (error : Option Json) (now : Int) (writes : Bool)
  | schedulerSnapshot (now : Int) (writes : Bool)
  | restart (now : Int) (writes : Bool)

def perform (env : Environment) : Call → StoreAction Reply
  | .create payload uuid now writes => .automation <$> create env payload uuid now writes
  | .update automationId changes expectedRevision now writes =>
    .automation <$> update env automationId changes expectedRevision now writes
  | .pause automationId expectedRevision now writes =>
    .automation <$> pause env automationId expectedRevision now writes
  | .resume automationId expectedRevision now writes =>
    .automation <$> resume env automationId expectedRevision now writes
  | .delete automationId expectedRevision now writes => do
      delete env automationId expectedRevision now writes
      pure .done
  | .claim automationId dueAt idempotencyKey expectedRevision capacityAvailable webSearch uuid
      now writes =>
      .run <$> claim env automationId dueAt idempotencyKey expectedRevision capacityAvailable
        webSearch uuid now writes
  | .runNow automationId capacityAvailable webSearch keyUuid uuid now writes =>
    .run <$> runNow env automationId capacityAvailable webSearch keyUuid uuid now writes
  | .markRunning runId bridgeRunId threadId now writes =>
    .run <$> markRunning env runId bridgeRunId threadId now writes
  | .complete runId status error now writes =>
    .run <$> complete env runId status error now writes
  | .completeByBridgeRun bridgeRunId status error now writes =>
    .run <$> completeByBridgeRun env bridgeRunId status error now writes
  | .completeRuntimeRun bridgeRunId clientRequestId unattended status error now writes =>
    .run <$> completeRuntimeRun env bridgeRunId clientRequestId unattended status error now writes
  | .schedulerSnapshot now writes => .offers <$> schedulerSnapshot env now writes
  | .restart now writes => do
      restart env now writes
      pure .done

/-- `uuid4` returns no identifier that is in use. -/
def drawsFresh (s : Store) : Call → Bool
  | .create _ uuid _ _ => !s.state.automations.contains ("aut_" ++ uuid)
  | .claim _ _ _ _ _ _ uuid _ _ => !s.state.runs.contains ("autrun_" ++ uuid)
  | .runNow _ _ _ _ uuid _ _ => !s.state.runs.contains ("autrun_" ++ uuid)
  | _ => true

def next (env : Environment) (s : Store) (call : Call) : Option Store :=
  if drawsFresh s call then some (perform env call s).2 else none

/-- The default limits, a validator that accepts every target and one known time. -/
def sampleEnvironment : Environment where
  maxRunsPerAutomation := 200
  maxTotalRuns := 5000
  maxDeletedCreateRequests := 1000
  misfireGrace := 300000000
  limits := by decide
  targetValidator := fun _ => .ok ()
  fromIsoformat := fun s =>
    if s = "2030-01-01T00:00:00Z" then .instant (instantOf 1893456000) else .malformed
  isoText := fun _ => "2030-01-01T00:00:00Z"
  zoneInfo := fun _ => .notFound
  rruleParses := fun _ _ _ => false
  rruleAfter := fun _ _ _ _ => none
  createFingerprint := fun _ => ""
  datetimeMax := 253402300799999999

def samplePayload : List (String × Json) :=
  [("name", .str "Backup"), ("prompt", .str "Check the backup"),
    ("target", .obj [("kind", .str "standalone"), ("project_id", .str "home")]),
    ("schedule", .obj [("kind", .str "once"), ("at", .str "2030-01-01T00:00:00Z")])]

end CodexBridge.Automations
