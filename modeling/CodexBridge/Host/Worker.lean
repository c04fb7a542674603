import CodexBridge.Library.Dict
import CodexBridge.Library.Traces
import CodexBridge.Library.Effect

/-! # The host worker

The separately privileged process that runs root commands. It reserves a request id before
it starts anything, and remembers the runs it was told to stop for as long as it lives.
-/

namespace CodexBridge.Host

open Effect Traces

def MAX_REQUESTS_PER_SESSION : Nat := 4096

def MAX_ACTIVE_COMMANDS : Nat := 2

/-! ## Commands -/

structure HostCommand where
  command : String
  cwd : String
  timeoutSeconds : Nat

structure HostInvocation where
  runId : String
  requestId : String
  scopeRevision : String
  workerSession : String
  expiresAt : Int
  operation : HostCommand

/-- `_Job`: the run of a started command and its cancellation flag. -/
structure Job where
  runId : String
  cancelled : Bool

inductive WorkerEvent
  /-- `_spawn` returned the process of a request. -/
  | started (requestId runId : String)
  /-- `cancel` returned. -/
  | cancelled (runId : String)

def WorkerEvent.isStart (requestId : String) : WorkerEvent → Bool
  | .started r _ => r = requestId
  | .cancelled _ => false

structure HostWorker where
  sessionId : String
  scopeRevision : String
  requests : List String
  revokedRuns : List String
  jobs : Dict String Job
  closed : Bool
  trace : List WorkerEvent

namespace HostWorker

/-- `HostWorker.__init__` with the identity it was given and the session it drew. -/
def initial (sessionId scopeRevision : String) : HostWorker where
  sessionId := sessionId
  scopeRevision := scopeRevision
  requests := []
  revokedRuns := []
  jobs := Dict.empty
  closed := false
  trace := []

/-- `HostWorkerError`. -/
abbrev Error := String

/-- Reserve before starting: a command is not repeated after a lost reply. -/
def reserve (requestId : String) (w : HostWorker) : HostWorker :=
  { w with requests := requestId :: w.requests }

def start (requestId runId : String) (w : HostWorker) : HostWorker :=
  { w with
    jobs := w.jobs.set requestId ⟨runId, false⟩
    trace := .started requestId runId :: w.trace }

/-- `execute` up to the release of the lock. The clock is read twice, and `spawned` says
whether the process could be started. -/
def execute (invocation : HostInvocation) (now now' : Int) (spawned : Bool) :
    Action HostWorker Error Unit := do
  let w ← read id
  require (!(w.closed || w.revokedRuns.contains invocation.runId))
    "Host access was stopped for this run."
  require (invocation.workerSession = w.sessionId && invocation.scopeRevision = w.scopeRevision)
    "The host access environment changed."
  require (now < invocation.expiresAt && invocation.expiresAt ≤ now' + 30000)
    "The host access request expired."
  require (!w.requests.contains invocation.requestId)
    "This host command has already been submitted."
  require (w.requests.length < MAX_REQUESTS_PER_SESSION)
    "Restart Host Access before submitting more commands."
  require (w.jobs.size < MAX_ACTIVE_COMMANDS) "The host command limit has been reached."
  modify (reserve invocation.requestId)
  -- a process that could not be started leaves no job, but its id stays reserved
  require spawned "The host command could not start."
  modify (start invocation.requestId invocation.runId)

def finish (requestId : String) (w : HostWorker) : HostWorker :=
  { w with jobs := w.jobs.erase requestId }

def cancel (runId : String) (w : HostWorker) : HostWorker :=
  let closed := w.closed || w.revokedRuns.length ≥ MAX_REQUESTS_PER_SESSION
  { w with
    closed := closed
    revokedRuns := w.revokedRuns.insert runId
    jobs := w.jobs.mapValues fun _ job =>
      if job.runId = runId || closed then { job with cancelled := true } else job
    trace := .cancelled runId :: w.trace }

def cancelRoute (runId session : String) (w : HostWorker) : HostWorker :=
  if session ≠ w.sessionId ∨ runId.length > 128 then w else w.cancel runId

def close (w : HostWorker) : HostWorker :=
  { w with
    closed := true
    jobs := w.jobs.mapValues fun _ job => { job with cancelled := true } }

structure Contained (w : HostWorker) : Prop where
  startedOnce : ∀ id, w.trace.countP (WorkerEvent.isStart id) ≤ 1
  bounded : w.jobs.size ≤ MAX_ACTIVE_COMMANDS
  stopped : Always (fun e past => ∀ id run, e = .started id run → .cancelled run ∉ past) w.trace
  marked : ∀ id job, w.jobs.get? id = some job → .cancelled job.runId ∈ w.trace →
    job.cancelled = true

/-- How the reserved ids and the stopped runs agree with what happened. -/
structure Inv (w : HostWorker) : Prop extends Contained w where
  reserved : ∀ id run, .started id run ∈ w.trace → id ∈ w.requests
  revoked : ∀ run, .cancelled run ∈ w.trace → run ∈ w.revokedRuns

theorem inv_initial (sessionId scopeRevision : String) : (initial sessionId scopeRevision).Inv where
  startedOnce id := Nat.zero_le _
  bounded := Nat.zero_le _
  stopped := always_nil
  marked id job hj := by cases hj
  reserved id run hm := by cases hm
  revoked run hm := by cases hm

variable {w : HostWorker}

theorem Inv.countP_eq_zero (h : w.Inv) {id : String} (hid : id ∉ w.requests) :
    w.trace.countP (WorkerEvent.isStart id) = 0 := by
  rw [List.countP_eq_zero]
  intro e he hs
  cases e with
  | cancelled run => cases hs
  | started r run =>
    have hr : r = id := by simpa [WorkerEvent.isStart] using hs
    exact hid (hr ▸ h.reserved r run he)

theorem Inv.reserve (h : w.Inv) (id : String) : (w.reserve id).Inv where
  startedOnce := h.startedOnce
  bounded := h.bounded
  stopped := h.stopped
  marked := h.marked
  reserved r run hm := List.mem_cons_of_mem id (h.reserved r run hm)
  revoked := h.revoked

theorem Inv.start (h : w.Inv) {id run : String} (hid : id ∉ w.requests)
    (hrun : run ∉ w.revokedRuns) (hsize : w.jobs.size < MAX_ACTIVE_COMMANDS) :
    ((w.reserve id).start id run).Inv where
  startedOnce id' := by
    have hone := h.startedOnce id'
    show (WorkerEvent.started id run :: w.trace).countP _ ≤ 1
    rw [List.countP_cons]
    by_cases hid' : id = id'
    · have hzero := h.countP_eq_zero (hid' ▸ hid)
      rw [hzero]
      split <;> omega
    have hno : WorkerEvent.isStart id' (.started id run) = false := by
      simpa [WorkerEvent.isStart] using hid'
    rw [hno]
    simpa using hone
  bounded := by
    have hset := w.jobs.size_set_le id ⟨run, false⟩
    show (w.jobs.set id ⟨run, false⟩).size ≤ MAX_ACTIVE_COMMANDS
    omega
  stopped := by
    refine ⟨?_, h.stopped⟩
    intro id' run' he hm
    cases he
    exact hrun (h.revoked run hm)
  marked id' job hj hm := by
    have hm' : .cancelled job.runId ∈ w.trace := by
      rcases List.mem_cons.mp hm with he | hm
      · cases he
      · exact hm
    replace hj : (w.jobs.set id ⟨run, false⟩).get? id' = some job := hj
    rw [Dict.get?_set] at hj
    by_cases hid' : id' = id
    · rw [if_pos hid'] at hj
      cases hj
      exact absurd (h.revoked run hm') hrun
    · rw [if_neg hid'] at hj
      exact h.marked id' job hj hm'
  reserved r run' hm := by
    rcases List.mem_cons.mp hm with he | hm
    · cases he
      exact List.mem_cons_self
    · exact List.mem_cons_of_mem id (h.reserved r run' hm)
  revoked run' hm := by
    rcases List.mem_cons.mp hm with he | hm
    · cases he
    · exact h.revoked run' hm

/-- `execute` keeps the invariant, whether it starts the command or refuses. -/
theorem keeps_execute (invocation : HostInvocation) (now now' : Int) (spawned : Bool) :
    Keeps Inv (execute invocation now now' spawned) := by
  intro w h
  unfold execute
  rw [bind_read_run]
  refine Triple.bind_require (P := fun u => u = w) (fun s hs => hs ▸ h) ?_ w rfl
  intro hopen
  refine Triple.bind_require (fun s hs => hs ▸ h) fun _ => ?_
  refine Triple.bind_require (fun s hs => hs ▸ h) fun _ => ?_
  refine Triple.bind_require (fun s hs => hs ▸ h) fun hnew => ?_
  refine Triple.bind_require (fun s hs => hs ▸ h) fun _ => ?_
  refine Triple.bind_require (fun s hs => hs ▸ h) fun hsize => ?_
  have hrun : invocation.runId ∉ w.revokedRuns := by
    simp only [id_eq, Bool.not_eq_true', Bool.or_eq_false_iff] at hopen
    simpa using hopen.2
  have hid : invocation.requestId ∉ w.requests := by simpa using hnew
  have hsize : w.jobs.size < MAX_ACTIVE_COMMANDS := by simpa using hsize
  refine Triple.bind (Triple.modify (T := fun _ u => u =
    w.reserve invocation.requestId) fun s hs => by rw [hs]) fun _ => ?_
  refine Triple.bind_require (fun s hs => hs ▸ h.reserve invocation.requestId) fun _ => ?_
  exact Triple.modify fun s hs => hs ▸ h.start hid hrun hsize

theorem Inv.finish (h : w.Inv) (requestId : String) : (w.finish requestId).Inv where
  startedOnce := h.startedOnce
  bounded := Nat.le_trans (w.jobs.size_erase_le requestId) h.bounded
  stopped := h.stopped
  marked id job hj := by
    have hj' : (w.jobs.erase requestId).get? id = some job := hj
    rw [Dict.get?_erase] at hj'
    by_cases hid : id = requestId
    · rw [if_pos hid] at hj'
      cases hj'
    · rw [if_neg hid] at hj'
      exact h.marked id job hj'
  reserved := h.reserved
  revoked := h.revoked

theorem Inv.cancel (h : w.Inv) (runId : String) : (w.cancel runId).Inv where
  startedOnce id := by
    show (WorkerEvent.cancelled runId :: w.trace).countP _ ≤ 1
    rw [List.countP_cons]
    exact h.startedOnce id
  bounded := by
    show (w.jobs.mapValues _).size ≤ MAX_ACTIVE_COMMANDS
    rw [Dict.size_mapValues]
    exact h.bounded
  stopped := by
    refine ⟨?_, h.stopped⟩
    intro id run he
    cases he
  marked id job hj hm := by
    have hj' : (w.jobs.mapValues _).get? id = some job := hj
    rw [Dict.get?_mapValues] at hj'
    obtain ⟨old, hold, rfl⟩ := Option.map_eq_some_iff.mp hj'
    split
    · rfl
    rename_i hne
    rw [if_neg hne] at hm
    have hold' : .cancelled old.runId ∈ w.trace := by
      rcases List.mem_cons.mp hm with he | hm
      · cases he
        simp at hne
      · exact hm
    exact h.marked id old hold hold'
  reserved id run hm := by
    rcases List.mem_cons.mp hm with he | hm
    · cases he
    · exact h.reserved id run hm
  revoked run hm := by
    show run ∈ w.revokedRuns.insert runId
    rw [List.mem_insert_iff]
    rcases List.mem_cons.mp hm with he | hm
    · cases he
      exact Or.inl rfl
    · exact Or.inr (h.revoked run hm)

theorem Inv.cancelRoute (h : w.Inv) (runId session : String) :
    (w.cancelRoute runId session).Inv := by
  unfold HostWorker.cancelRoute
  split
  · exact h
  · exact h.cancel runId

theorem Inv.close (h : w.Inv) : w.close.Inv where
  startedOnce := h.startedOnce
  bounded := by
    show (w.jobs.mapValues _).size ≤ MAX_ACTIVE_COMMANDS
    rw [Dict.size_mapValues]
    exact h.bounded
  stopped := h.stopped
  marked id job hj _ := by
    have hj' : (w.jobs.mapValues _).get? id = some job := hj
    rw [Dict.get?_mapValues] at hj'
    obtain ⟨old, _, rfl⟩ := Option.map_eq_some_iff.mp hj'
    rfl
  reserved := h.reserved
  revoked := h.revoked

end HostWorker

end CodexBridge.Host
