import CodexBridge.Automations.RunFates

/-! # Concurrent claim requests and the runtime

A claim request claims a run, hands it to the dispatcher, which submits the prompt
to the Bridge and marks the run running, and completes the run as blocked when the
dispatcher raises. Each of these is one step, so the steps of several requests and
of the runtime interleave in any order. The Bridge accepts one run for a client
request id and answers a later admission with that run.
-/

namespace CodexBridge.Automations.Dispatch

open Effect

/-! ## The runtime -/

inductive Outcome where
  | completed | failed | cancelled | interrupted
  deriving DecidableEq

/-- The table of `automation_run_terminal`. -/
def Outcome.automationStatus : Outcome → RunStatus
  | .completed => .completed
  | .failed => .failed
  | .cancelled => .cancelled
  | .interrupted => .interruptedRestart

/-- A run ends under the broker's lock, and its listener runs after that. -/
inductive Progress where
  | live
  | ended (outcome : Outcome)
  | reported (outcome : Outcome)
  deriving DecidableEq

/-- Whether the automation store has yet to be told of the end. -/
def Progress.isOpen : Progress → Bool
  | .live | .ended _ => true
  | .reported _ => false

structure BridgeRun where
  clientRequestId : String
  threadId : String
  progress : Progress

/-- The runs, the accepted request ids and the admissions that hold a lease. -/
structure Bridge where
  runs : Dict String BridgeRun
  requestIdempotency : Dict String String
  pendingPromptAdmissions : Dict String Nat

/-- `f"automation:{automation_run_id}"`. -/
def dispatchRequestId (automationRunId : String) : String := "automation:" ++ automationRunId

theorem automationRunIdOf_dispatchRequestId (k : String) :
    automationRunIdOf (dispatchRequestId k) = some k := by
  unfold automationRunIdOf dispatchRequestId
  rw [String.toList_append, if_pos (by simp)]
  have hdrop : ("automation:".toList ++ k.toList).drop 11 = k.toList := by
    have hlength : "automation:".toList.length = 11 := rfl
    rw [← hlength, List.drop_left]
  rw [hdrop, String.ofList_toList]

def Bridge.accepted (b : Bridge) (automationRunId : String) : Option (String × BridgeRun) :=
  (b.requestIdempotency.get? (dispatchRequestId automationRunId)).bind fun runId =>
    (b.runs.get? runId).map fun run => (runId, run)

def Bridge.hasOpenRun (b : Bridge) (automationRunId : String) : Bool :=
  (b.accepted automationRunId).any fun found => found.2.progress.isOpen

inductive Phase where
  | dispatching
  | admitted
  | submitted (bridgeRunId threadId : String)
  | rejected
  | answered
  deriving DecidableEq

/-- A `claim_run` request after its claim. -/
structure Request where
  idempotencyKey : String
  automationRunId : String
  phase : Phase

structure World where
  store : Store
  bridge : Bridge
  requests : Dict Nat Request

def World.initial : World :=
  ⟨Store.initial, ⟨Dict.empty, Dict.empty, Dict.empty⟩, Dict.empty⟩

def World.setPhase (w : World) (i : Nat) (phase : Phase) : World :=
  { w with requests := w.requests.update i fun q => { q with phase := phase } }

/-! ## Steps -/

inductive Step where
  | claim (i : Nat) (automationId dueAt idempotencyKey : String) (expectedRevision : Int)
      (capacityAvailable : Bool) (webSearch : Json) (uuid : String) (now : Int) (writes : Bool)
  | runNow (i : Nat) (automationId : String) (capacityAvailable : Bool) (webSearch : Json)
      (keyUuid uuid : String) (now : Int) (writes : Bool)
  | admitRun (i : Nat)
  | reject (i : Nat)
  | submit (i : Nat) (bridgeRunId threadId : String)
  | markRunning (i : Nat) (now : Int) (writes : Bool)
  | block (i : Nat) (now : Int) (writes : Bool)
  | finish (bridgeRunId : String) (outcome : Outcome)
  | report (bridgeRunId : String) (now : Int) (writes : Bool)
  | call (call : Call)

/-- `uuid4` returns no identifier that was in use. -/
def World.isUnused (w : World) (automationRunId : String) : Bool :=
  isIdentifier automationRunId && !w.store.state.runs.contains automationRunId &&
    !w.bridge.requestIdempotency.contains (dispatchRequestId automationRunId) &&
    w.requests.values.all fun q => q.automationRunId ≠ automationRunId

def World.claimed (w : World) (i : Nat) (idempotencyKey : String)
    (result : Except AutomationError Run × Store) : World :=
  { w with
    store := result.2
    requests := match result.1 with
      | .ok run => w.requests.set i
          ⟨idempotencyKey, run.automationRunId,
            if run.dispatchable then .dispatching else .answered⟩
      | .error _ => w.requests }

/-- `admit_prompt`: a replay, a pending admission, or a fresh one. -/
def World.admitted (w : World) (i : Nat) (q : Request) : World :=
  match w.bridge.accepted q.automationRunId with
  | some (bridgeRunId, run) => w.setPhase i (.submitted bridgeRunId run.threadId)
  | none =>
    let id := dispatchRequestId q.automationRunId
    if w.bridge.pendingPromptAdmissions.contains id then w.setPhase i .rejected
    else
      { w.setPhase i .admitted with
        bridge := { w.bridge with
          pendingPromptAdmissions := w.bridge.pendingPromptAdmissions.set id i } }

/-- `_release_prompt_admission`, for the request that owns it. -/
def Bridge.release (b : Bridge) (id : String) (i : Nat) : Bridge :=
  if b.pendingPromptAdmissions.get? id = some i then
    { b with pendingPromptAdmissions := b.pendingPromptAdmissions.erase id }
  else b

/-- The tables after `submit_prompt` created a run and took over its admission. -/
def Bridge.accept (b : Bridge) (automationRunId bridgeRunId threadId : String) : Bridge :=
  let id := dispatchRequestId automationRunId
  { runs := b.runs.set bridgeRunId ⟨id, threadId, .live⟩
    requestIdempotency := b.requestIdempotency.set id bridgeRunId
    pendingPromptAdmissions := b.pendingPromptAdmissions.erase id }

/-- `submit_prompt` with the admission. -/
def World.submitted (w : World) (i : Nat) (q : Request) (bridgeRunId threadId : String) : World :=
  let id := dispatchRequestId q.automationRunId
  if w.bridge.pendingPromptAdmissions.get? id ≠ some i then w.setPhase i .rejected
  else
    match w.bridge.accepted q.automationRunId with
    | some (earlier, run) =>
      { w.setPhase i (if run.threadId = threadId then .submitted earlier threadId
          else .rejected) with bridge := w.bridge.release id i }
    | none =>
      { w.setPhase i (.submitted bridgeRunId threadId) with
        bridge := w.bridge.accept q.automationRunId bridgeRunId threadId }

/-- The phase of a request whose call returned or raised. -/
def phaseAfter (result : Except AutomationError Run) (raised : Phase) : Phase :=
  match result with
  | .ok _ => .answered
  | .error _ => raised

def Bridge.setProgress (b : Bridge) (bridgeRunId : String) (progress : Progress) : Bridge :=
  { b with runs := b.runs.update bridgeRunId fun run => { run with progress := progress } }

def isDefinitionCall : Call → Bool
  | .create .. | .update .. | .pause .. | .resume .. | .delete .. | .schedulerSnapshot .. => true
  | _ => false

def next (env : Environment) (w : World) : Step → Option World
  | .claim i automationId dueAt key expectedRevision capacityAvailable webSearch uuid now
      writes =>
      if w.isUnused ("autrun_" ++ uuid) && !w.requests.contains i then
        some (w.claimed i key (Automations.claim env automationId dueAt key expectedRevision
          capacityAvailable webSearch uuid now writes w.store))
      else none
  | .runNow i automationId capacityAvailable webSearch keyUuid uuid now writes =>
    if w.isUnused ("autrun_" ++ uuid) && !w.requests.contains i then
      some (w.claimed i ("manual:" ++ automationId ++ ":" ++ keyUuid)
        (Automations.runNow env automationId capacityAvailable webSearch keyUuid uuid now
          writes w.store))
    else none
  | .admitRun i =>
    match w.requests.get? i with
    | some q => if q.phase = .dispatching then some (w.admitted i q) else none
    | none => none
  | .reject i =>
    match w.requests.get? i with
    | some q =>
      if q.phase = .dispatching ∨ q.phase = .admitted then
        some { w.setPhase i .rejected with
          bridge := w.bridge.release (dispatchRequestId q.automationRunId) i }
      else none
    | none => none
  | .submit i bridgeRunId threadId =>
    match w.requests.get? i with
    | some q =>
      if q.phase = .admitted ∧ w.bridge.runs.contains bridgeRunId = false ∧
          isIdentifier bridgeRunId = true ∧ isIdentifier threadId = true then
        some (w.submitted i q bridgeRunId threadId)
      else none
    | none => none
  | .markRunning i now writes =>
    match w.requests.get? i with
    | some ⟨_, automationRunId, .submitted bridgeRunId threadId⟩ =>
      let result := Automations.markRunning env automationRunId (some bridgeRunId)
        (some threadId) now writes w.store
      some { w.setPhase i (phaseAfter result.1 .rejected) with store := result.2 }
    | _ => none
  | .block i now writes =>
    match w.requests.get? i with
    | some ⟨_, automationRunId, .rejected⟩ =>
      let result := Automations.complete env automationRunId .blocked
        (some (.str "automation dispatcher rejected the claim")) now writes w.store
      some { w.setPhase i .answered with store := result.2 }
    | _ => none
  | .finish bridgeRunId outcome =>
    match w.bridge.runs.get? bridgeRunId with
    | some ⟨_, _, .live⟩ =>
      some { w with bridge := w.bridge.setProgress bridgeRunId (.ended outcome) }
    | _ => none
  | .report bridgeRunId now writes =>
    match w.bridge.runs.get? bridgeRunId with
    | some ⟨clientRequestId, _, .ended outcome⟩ =>
      let result := Automations.completeRuntimeRun env bridgeRunId clientRequestId true
        outcome.automationStatus none now writes w.store
      some { w with
        store := result.2
        bridge := w.bridge.setProgress bridgeRunId (.reported outcome) }
    | _ => none
  | .call call =>
    if isDefinitionCall call && drawsFresh w.store call then
      some { w with store := (perform env call w.store).2 }
    else none

/-- One Bridge run for a client request; a run the Bridge has accepted and not reported
is active in the store; a reported one has the status reported; and requests with one
key have one run, as long as its record is kept. -/
structure Sound (w : World) : Prop where
  one_run : ∀ b b' run run', w.bridge.runs.get? b = some run → w.bridge.runs.get? b' = some run' →
    run.clientRequestId = run'.clientRequestId → b = b'
  stays_active : ∀ b run k, w.bridge.runs.get? b = some run →
    run.clientRequestId = dispatchRequestId k → run.progress.isOpen = true →
    ∃ record, w.store.state.runs.get? k = some record ∧ record.status.isActive = true
  reported : ∀ b run k outcome, w.bridge.runs.get? b = some run →
    run.clientRequestId = dispatchRequestId k → run.progress = .reported outcome →
    ∀ record, w.store.state.runs.get? k = some record → record.status = outcome.automationStatus
  one_claim : ∀ i j q q' record record', w.requests.get? i = some q → w.requests.get? j = some q' →
    q.idempotencyKey = q'.idempotencyKey →
    w.store.state.runs.get? q.automationRunId = some record →
    w.store.state.runs.get? q'.automationRunId = some record' →
    q.automationRunId = q'.automationRunId

/-- The condition on a step. A dispatch raises only while no Bridge run of its run is
open; a prompt is submitted only while the run is active and no other dispatch of it
has failed; and `mark_running` does not meet a running record and its write goes through. -/
def isCareful (w : World) : Step → Bool
  | .reject i => (w.requests.get? i).all fun q => !w.bridge.hasOpenRun q.automationRunId
  | .submit i _ _ => (w.requests.get? i).all fun q =>
    (w.store.state.runs.get? q.automationRunId).any (fun record => record.status.isActive) &&
      w.requests.values.all fun other =>
        !(other.automationRunId = q.automationRunId && other.phase = .rejected)
  | .markRunning i _ writes => writes && (w.requests.get? i).all fun q =>
    (w.store.state.runs.get? q.automationRunId).all fun record => record.status ≠ .running
  | _ => true

def Step.carries (idempotencyKey : String) : Step → Bool
  | .claim _ _ _ key _ _ _ _ _ _ => key = idempotencyKey
  | .runNow .. => false
  | .call (.delete ..) => false
  | _ => true

def sampleClaim (i : Nat) (uuid : String) : Step :=
  .claim i "aut_a" "2030-01-01T00:00:00Z" "k" 1 true .null uuid 1893456000000000 true

/-- Two requests with one key overlap: the second is admitted after the first has
marked the run, meets a running record and completes it as blocked. -/
def overlappingSteps : List Step :=
  [.call (.create samplePayload "a" 0 true), sampleClaim 0 "1", sampleClaim 1 "2", .admitRun 0,
    .submit 0 "run_1" "t1", .markRunning 0 1893456001000000 true, .admitRun 1,
    .markRunning 1 1893456002000000 true, .block 1 1893456003000000 true]

def World.outline (w : World) : List RunStatus × List Progress :=
  (w.store.state.runs.values.map Run.status, w.bridge.runs.values.map BridgeRun.progress)

end CodexBridge.Automations.Dispatch
