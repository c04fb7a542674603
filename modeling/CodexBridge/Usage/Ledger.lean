import CodexBridge.Library.Dict
import CodexBridge.Library.Effect
import Mathlib.Data.List.Sort

/-! # Reported token usage

`usage_history.py`. A meter is one native thread of one account. Its record names the run that
may advance it and holds the last snapshot accepted; a run counts what the snapshots grew by
while it held the meter. Every call works on a copy of the state that `_commit` bounds, writes
and only then installs.
-/

namespace CodexBridge.Usage

open Effect

def MAX_SCOPES : Nat := 2048

def MAX_BYTES : Nat := 4 * 1024 * 1024

def MAX_COUNTER : Nat := 9007199254740991

inductive Failure where
  | usageHistoryError (message : String)
  | valueError (message : String)
  /-- `atomic_write_bytes` raised. -/
  | disk
  deriving DecidableEq

inductive Status where
  | running
  | completed
  | cancelled
  | failed
  | interrupted
  deriving DecidableEq

/-- `in TERMINAL`. -/
def Status.isTerminal (status : Status) : Bool := status ≠ .running

inductive Coverage where
  | not_reported
  | part
  | reported
  deriving DecidableEq

structure TokenBreakdown where
  totalTokens : Nat
  inputTokens : Nat
  cachedInputTokens : Nat
  outputTokens : Nat
  reasoningOutputTokens : Nat
  cacheWriteInputTokens : Nat
  deriving DecidableEq

def TokenBreakdown.zero : TokenBreakdown := ⟨0, 0, 0, 0, 0, 0⟩

/-- Some counter went down. -/
def TokenBreakdown.isBelow (total previous : TokenBreakdown) : Bool :=
  total.totalTokens < previous.totalTokens || total.inputTokens < previous.inputTokens ||
    total.cachedInputTokens < previous.cachedInputTokens ||
    total.outputTokens < previous.outputTokens ||
    total.reasoningOutputTokens < previous.reasoningOutputTokens ||
    total.cacheWriteInputTokens < previous.cacheWriteInputTokens

/-- The fields a repeated admission must agree in. -/
structure Identity where
  threadId : String
  projectId : Option String
  accountMarker : Option String
  nativeThreadId : String
  nativeTurnId : String
  startedAt : String
  /-- `max_duration_seconds`. -/
  budget : Option Nat
  deriving DecidableEq

structure UsageRun extends Identity where
  runId : String
  accountLabel : String
  finishedAt : Option String
  status : Status
  reportedTokens : Option Nat
  reportedThreadTokens : Option Nat
  coverage : Coverage
  observedAt : Option String
  deriving DecidableEq

structure Scope where
  runId : String
  watermark : Option TokenBreakdown
  continuous : Bool
  deriving DecidableEq

structure State where
  runs : Dict String UsageRun
  scopes : Dict String Scope
  evictedRuns : Nat
  accounts : Dict String Nat

def State.empty : State := ⟨.empty, .empty, 0, .empty⟩

structure Environment where
  /-- `_time`; no instant where it raises. -/
  time : String → Option Int
  /-- The bytes of `model_dump_json`. -/
  size : State → Nat
  maxRuns : Nat

abbrev Call := Action State Failure

def _time (env : Environment) (value : String) : Except Failure Int :=
  match env.time value with
  | some t => .ok t
  | none => .error (.valueError "usage timestamps require a time zone")

/-- `_time(a) < _time(b)` of two texts already checked. -/
def isEarlier (env : Environment) (a b : String) : Bool :=
  match env.time a, env.time b with
  | some s, some t => s < t
  | _, _ => false

def scopeKey (run : UsageRun) : String :=
  run.accountMarker.getD run.runId ++ ":" ++ run.nativeThreadId

/-! ## Commit -/

/-- The order of `(_time(row.started_at), row.run_id)`. -/
def startsBefore (env : Environment) (a b : UsageRun) : Prop :=
  isEarlier env a.startedAt b.startedAt = true ∨
    (isEarlier env b.startedAt a.startedAt = false ∧ a.runId ≤ b.runId)

instance decidableStartsBefore (env : Environment) : DecidableRel (startsBefore env) :=
  fun _ _ => inferInstanceAs (Decidable (_ ∨ _))

def terminalRuns (env : Environment) (state : State) : List UsageRun :=
  (state.runs.values.filter fun row => row.status.isTerminal).insertionSort (startsBefore env)

/-- `while len(state.runs) > self._max_runs and terminal`. -/
def evictRuns (maxRuns : Nat) : List UsageRun → State → State
  | [], state => state
  | row :: rest, state =>
    if maxRuns < state.runs.size then
      evictRuns maxRuns rest
        { state with
          runs := state.runs.erase row.runId
          evictedRuns := state.evictedRuns + 1 }
    else state

/-- `for key in list(state.scopes)`. -/
def evictScopes : List (String × Scope) → State → State
  | [], state => state
  | (key, scope) :: rest, state =>
    if state.scopes.size ≤ MAX_SCOPES then state
    else if state.runs.contains scope.runId then evictScopes rest state
    else evictScopes rest { state with scopes := state.scopes.erase key }

/-- What `_commit` keeps of a state. -/
def bound (env : Environment) (state : State) : State :=
  let state := evictRuns env.maxRuns (terminalRuns env state) state
  evictScopes state.scopes.entries state

/-- `written` is false where the write raises. -/
def commit (env : Environment) (written : Bool) (state : State) : Call Unit := do
  let state := bound env state
  require (state.runs.size ≤ env.maxRuns)
    (.usageHistoryError "Usage history has too many active runs.")
  require (state.scopes.size ≤ MAX_SCOPES)
    (.usageHistoryError "Usage history has too many active meters.")
  require (env.size state ≤ MAX_BYTES) (.usageHistoryError "Usage history exceeds its limit.")
  require written .disk
  modify fun _ => state

/-! ## Calls -/

def identify (accounts : Dict String Nat) : Option String → Except Failure (Dict String Nat)
  | none => .ok accounts
  | some marker =>
    if accounts.contains marker then .ok accounts
    else if MAX_SCOPES ≤ accounts.size then
      .error (.usageHistoryError "Usage history has too many account identities.")
    else .ok (accounts.set marker (accounts.size + 1))

def label (accounts : Dict String Nat) (run : UsageRun) : String :=
  match run.accountMarker.bind accounts.get? with
  | some number =>
    if run.accountLabel = "Account not reported" then "Account " ++ toString number
    else run.accountLabel
  | none => run.accountLabel

def isActive (runs : Dict String UsageRun) (runId : String) : Bool :=
  (runs.get? runId).any fun row => !row.status.isTerminal

/-- The copy of the state that `start` commits for a new run. -/
def admitRun (state : State) (run : UsageRun) (freshNativeThread : Bool) :
    Except Failure State := do
  let accounts ← identify state.accounts run.accountMarker
  let runs := state.runs.set run.runId { run with accountLabel := label accounts run }
  let previous := state.scopes.get? (scopeKey run)
  refuse (previous.any (fun scope => isActive runs scope.runId) = true)
    (.usageHistoryError "Usage meter already has an active owner.")
  refuse (freshNativeThread = true ∧ previous.isSome = true)
    (.usageHistoryError "Existing native thread cannot start at zero.")
  pure { state with
    runs := runs
    accounts := accounts
    scopes := state.scopes.set (scopeKey run)
      { runId := run.runId
        watermark := if freshNativeThread then some .zero else previous.bind Scope.watermark
        continuous := freshNativeThread && run.accountMarker.isSome } }

def start (env : Environment) (written : Bool) (run : UsageRun) (freshNativeThread : Bool) :
    Call Unit := do
  let _ ← lift (_time env run.startedAt)
  let state ← read id
  match state.runs.get? run.runId with
  | some existing =>
    require (existing.toIdentity = run.toIdentity)
      (.usageHistoryError "Usage run identity changed.")
  | none => do
      let state ← lift (admitRun state run freshNativeThread)
      commit env written state

/-- The tokens of a run after an accepted snapshot. The first one of a meter only sets it. -/
def grow (row : UsageRun) (previous : Option TokenBreakdown) (total : TokenBreakdown) :
    Except Failure (Option Nat) :=
  match previous with
  | none => .ok row.reportedTokens
  | some previous =>
    let reported := row.reportedTokens.getD 0 + (total.totalTokens - previous.totalTokens)
    if MAX_COUNTER < reported then
      .error (.usageHistoryError "Usage counter exceeds its limit.")
    else .ok (some reported)

/-- What a snapshot makes of the run and of its meter: the two copies to commit and the answer
of `observe`, or nothing where it returns early. `total` is the validated snapshot, if it is one. -/
def record (env : Environment) (row : UsageRun) (meter : Scope) (observedAt : String)
    (total : Option TokenBreakdown) : Except Failure (Option (UsageRun × Scope × Bool)) :=
  let unsure := if row.reportedTokens.isSome then .part else .not_reported
  match total with
  | none =>
    .ok (some ({ row with coverage := unsure }, { meter with continuous := false }, false))
  | some total =>
    if row.observedAt.any (isEarlier env observedAt) then .ok none
    else
      let row := { row with reportedThreadTokens := some total.totalTokens }
      if total.totalTokens ≠ total.inputTokens + total.outputTokens then
        .ok (some ({ row with coverage := .part }, { meter with continuous := false }, false))
      else if meter.watermark = some total then
        if row.reportedTokens = none ∧ meter.continuous ∧ total.totalTokens = 0 then
          .ok (some
            ({ row with
                reportedTokens := some 0
                observedAt := some observedAt
                coverage := .reported },
              meter, true))
        else .ok none
      else if meter.watermark.any total.isBelow then
        .ok (some ({ row with coverage := unsure }, { meter with continuous := false }, false))
      else
        (grow row meter.watermark total).map fun reported =>
          some
            ({ row with
                reportedTokens := reported
                observedAt := some observedAt
                coverage :=
                  if reported.isSome then if meter.continuous then .reported else .part
                  else .not_reported },
              { meter with watermark := some total }, true)

def observe (env : Environment) (written : Bool) (runId nativeThreadId nativeTurnId : String)
    (total : Option TokenBreakdown) (observedAt : String) : Call Bool := do
  let _ ← lift (_time env observedAt)
  let state ← read id
  match state.runs.get? runId with
  | none => pure false
  | some run =>
    if (run.nativeThreadId, run.nativeTurnId) ≠ (nativeThreadId, nativeTurnId) then pure false
    else
      match state.scopes.get? (scopeKey run) with
      | none => pure false
      | some scope =>
        if scope.runId ≠ runId then pure false
        else do
          match ← lift (record env run scope observedAt total) with
          | none => pure false
          | some (row, meter, accepted) => do
              commit env written
                { state with
                  runs := state.runs.set runId row
                  scopes := state.scopes.set (scopeKey run) meter }
              pure accepted

def finish (env : Environment) (written : Bool) (runId : String) (status : Status)
    (finishedAt : String) : Call Unit := do
  require status.isTerminal (.valueError "invalid usage terminal state")
  let _ ← lift (_time env finishedAt)
  let state ← read id
  match state.runs.get? runId with
  | none => pure ()
  | some run =>
    if run.status.isTerminal then pure ()
    else do
      require (isEarlier env finishedAt run.startedAt = false)
        (.valueError "usage finish precedes start")
      commit env written
        { state with
          runs := state.runs.set runId
            { run with status := status, finishedAt := some finishedAt } }

end CodexBridge.Usage
