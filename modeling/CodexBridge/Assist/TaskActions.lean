import CodexBridge.Library.Dict
import CodexBridge.Library.Json

/-! # Task actions

How the Bridge starts, continues and answers a task for an Assist conversation. The policy is
checked before a known task is recognised. A request here always has `assist` set, web search
disabled and the observe mode, as those of a conversation do.
-/

namespace CodexBridge.Assist

/-- What the client keeps of an error response: `BridgeApiError.code` and `retryable`. -/
structure Problem where
  code : String
  retryable : Bool

/-! ## Requests -/

/-- The fields that only `StartTaskRequest` has. -/
structure StartFields where
  projectId : String
  title : String
  modelOverride : Option String
  thinkingOverride : Option String
  deriving DecidableEq

inductive Target where
  | start (fields : StartFields)
  | thread (threadId : String)
  deriving DecidableEq

structure Payload where
  taskId : String
  prompt : String
  assistMcpServers : Option (List String)
  target : Target
  deriving DecidableEq

structure Fingerprint where
  prompt : String
  assistMcpServers : Option (List String)
  fields : StartFields
  deriving DecidableEq

inductive TaskStatus where
  | queued | starting | running | cancelling | completed | failed | cancelled | interrupted
  deriving DecidableEq

/-- `_TERMINAL`. -/
def TaskStatus.isTerminal : TaskStatus → Bool
  | .completed | .failed | .cancelled | .interrupted => true
  | _ => false

inductive Readiness where
  | ready | authRequired | fatal

/-- What the Bridge reads at each request before it looks at the task. -/
structure Policy where
  authorised : Bool
  homeAssistant : Bool
  mcpEnabled : Option Bool
  mcpSelection : Bool
  readiness : Readiness
  models : Option (List (String × List String))

structure Project where
  archived : Bool
  defaultModel : String
  defaultThinking : String

structure Thread where
  assistOrigin : Bool
  assistMcpServers : Option (List String)
  taskActionFingerprint : Option Fingerprint
  observe : Bool
  effectiveModel : String
  effectiveThinking : String
  free : Bool
  archived : Bool

structure TaskRun where
  threadId : String
  prompt : String
  status : TaskStatus
  message : Option String

structure Bridge where
  policy : Policy
  projects : Dict String Project
  threads : Dict String Thread
  /-- `request_idempotency`, by the task identifier. -/
  runs : Dict String TaskRun

/-- An error from outside these checks, by the place where it is raised. -/
inductive Trouble where
  | none
  /-- In `admit_prompt`: a closed runtime, a full gate, a pending admission. -/
  | admission (p : Problem)
  /-- In `submit_prompt`, before the run is stored. -/
  | submission (p : Problem)
  /-- After the run is stored, at the latest in `_accepted`. -/
  | event (p : Problem)

namespace Bridge

def authorize (b : Bridge) : Except Problem Unit :=
  if !b.policy.authorised then .error ⟨"authentication_failed", false⟩
  else if !b.policy.homeAssistant then .error ⟨"task_actions_unavailable", true⟩
  else .ok ()

/-- `_require_assist_safety` of an Assist request. -/
def requireAssistSafety (b : Bridge) (servers : Option (List String)) : Except Problem Unit :=
  match servers with
  | some _ =>
    if b.policy.mcpSelection then .ok () else .error ⟨"assist_mcp_unavailable", false⟩
  | none =>
    if b.policy.mcpEnabled = some false then .ok ()
    else .error ⟨"assist_mcp_unavailable", false⟩

def requireReady (b : Bridge) : Except Problem Unit :=
  match b.policy.readiness with
  | .ready => .ok ()
  | .authRequired => .error ⟨"authentication_required", false⟩
  | .fatal => .error ⟨"runtime_unavailable", true⟩

def requireAssistModel (b : Bridge) (model thinking : String) : Except Problem Unit :=
  match b.policy.models with
  | none => .error ⟨"runtime_unavailable", true⟩
  | some models =>
    match models.find? fun entry => entry.1 = model with
    | none => .error ⟨"task_model_unavailable", false⟩
    | some entry =>
      if thinking ∈ entry.2 then .ok () else .error ⟨"task_model_unavailable", false⟩

def notFound : Problem := ⟨"task_target_not_found", false⟩

def unavailable : Problem := ⟨"task_target_unavailable", false⟩

def retryConflict : Problem := ⟨"task_retry_conflict", false⟩

def admissionTrouble : Trouble → Except Problem Unit
  | .admission p => .error p
  | _ => .ok ()

/-- `_accepted`: the thread of the run, once its event is journaled. -/
def accepted (run : TaskRun) : Trouble → Except Problem String
  | .event p => .error p
  | _ => .ok run.threadId

/-- `submit_prompt` and `_accepted`. -/
def submit (b : Bridge) (payload : Payload) (threadId : String) (trouble : Trouble) :
    Bridge × Except Problem String :=
  match trouble with
  | .submission p => (b, .error p)
  | _ =>
    let run : TaskRun := ⟨threadId, payload.prompt, .queued, none⟩
    ({ b with runs := b.runs.set payload.taskId run }, accepted run trouble)

def taskThread (taskId : String) : String := "thr_task_" ++ taskId

/-- `prepare_task_thread`: the chat of the task, made at most once. -/
def prepareTaskThread (b : Bridge) (payload : Payload) (fields : StartFields)
    (project : Project) : Except Problem Bridge :=
  let fingerprint : Fingerprint := ⟨payload.prompt, payload.assistMcpServers, fields⟩
  let model := fields.modelOverride.getD project.defaultModel
  let thinking := fields.thinkingOverride.getD project.defaultThinking
  match b.threads.get? (taskThread payload.taskId) with
  | some thread =>
    if thread.taskActionFingerprint ≠ some fingerprint ∨ thread.assistOrigin = false ∨
        thread.assistMcpServers ≠ payload.assistMcpServers then .error retryConflict
    else if thread.archived then .error unavailable
    else (b.requireAssistModel thread.effectiveModel thread.effectiveThinking).map fun _ => b
  | none =>
    let thread : Thread :=
      ⟨true, payload.assistMcpServers, some fingerprint, true, model, thinking, true, false⟩
    (b.requireAssistModel model thinking).map fun _ =>
      { b with threads := b.threads.set (taskThread payload.taskId) thread }

def replayStart (b : Bridge) (payload : Payload) (fields : StartFields) (run : TaskRun)
    (trouble : Trouble) : Except Problem String :=
  match b.threads.get? run.threadId with
  | none => .error notFound
  | some thread =>
    if run.threadId ≠ taskThread payload.taskId ∨ thread.assistOrigin = false ∨
        thread.taskActionFingerprint ≠
          some ⟨payload.prompt, payload.assistMcpServers, fields⟩ then .error retryConflict
    else accepted run trouble

def freshStart (b : Bridge) (payload : Payload) (fields : StartFields) (trouble : Trouble) :
    Bridge × Except Problem String :=
  match b.requireReady with
  | .error p => (b, .error p)
  | .ok _ =>
    match b.projects.get? fields.projectId with
    | none => (b, .error notFound)
    | some project =>
      if project.archived then (b, .error unavailable)
      else
        match admissionTrouble trouble with
        | .error p => (b, .error p)
        | .ok _ =>
          match b.prepareTaskThread payload fields project with
          | .error p => (b, .error p)
          | .ok prepared => prepared.submit payload (taskThread payload.taskId) trouble

def startTask (b : Bridge) (payload : Payload) (fields : StartFields) (trouble : Trouble) :
    Bridge × Except Problem String :=
  match b.authorize with
  | .error p => (b, .error p)
  | .ok _ =>
    match b.requireAssistSafety payload.assistMcpServers with
    | .error p => (b, .error p)
    | .ok _ =>
      match b.runs.get? payload.taskId with
      | some run => (b, b.replayStart payload fields run trouble)
      | none => b.freshStart payload fields trouble

/-- The checks of `continue_task` on the chat. -/
def continueChecks (b : Bridge) (payload : Payload) (threadId : String) : Except Problem Thread :=
  match b.threads.get? threadId with
  | none => .error notFound
  | some thread =>
    if thread.assistOrigin = false then .error unavailable
    else if thread.assistMcpServers ≠ payload.assistMcpServers then
      .error ⟨"assist_selection_changed", false⟩
    else if !thread.observe then .error ⟨"assist_policy_invalid", false⟩
    else .ok thread

/-- `admit_prompt` of a known task: the same prompt for the same chat. -/
def replayContinue (run : TaskRun) (payload : Payload) (threadId : String) (trouble : Trouble) :
    Except Problem String :=
  if run.prompt ≠ payload.prompt then .error ⟨"runtime_request_conflict", false⟩
  else if run.threadId ≠ threadId then .error retryConflict
  else accepted run trouble

def continueTask (b : Bridge) (payload : Payload) (threadId : String) (trouble : Trouble) :
    Bridge × Except Problem String :=
  match b.authorize with
  | .error p => (b, .error p)
  | .ok _ =>
    match b.requireAssistSafety payload.assistMcpServers with
    | .error p => (b, .error p)
    | .ok _ =>
      match if (b.runs.get? payload.taskId).isSome then .ok () else b.requireReady with
      | .error p => (b, .error p)
      | .ok _ =>
        match b.continueChecks payload threadId with
        | .error p => (b, .error p)
        | .ok thread =>
          match admissionTrouble trouble with
          | .error p => (b, .error p)
          | .ok _ =>
            match b.runs.get? payload.taskId with
            | some run => (b, replayContinue run payload threadId trouble)
            | none =>
              if !thread.free then (b, .error unavailable)
              else
                match b.requireAssistModel thread.effectiveModel
                    thread.effectiveThinking with
                | .error p => (b, .error p)
                | .ok _ => b.submit payload threadId trouble

def handle (b : Bridge) (payload : Payload) (trouble : Trouble) : Bridge × Except Problem String :=
  match payload.target with
  | .start fields => b.startTask payload fields trouble
  | .thread threadId => b.continueTask payload threadId trouble

def bounded (text : String) : String :=
  if 4096 < text.length then String.ofList (text.toList.take 4095) ++ "…" else text

def TaskRun.answer (run : TaskRun) : Option String :=
  if run.status = .completed then (run.message.filter fun text => text ≠ "").map bounded else none

def taskNotFound : Problem := ⟨"task_not_found", false⟩

/-- `get_task_answer`: never the text of another run. -/
def taskAnswer (b : Bridge) (taskId : String) : Except Problem (TaskStatus × Option String) :=
  match b.authorize with
  | .error p => .error p
  | .ok _ =>
    match b.runs.get? taskId with
    | none => .error taskNotFound
    | some run =>
      match b.threads.get? run.threadId with
      | none => .error taskNotFound
      | some thread =>
        if thread.assistOrigin = false then .error taskNotFound
        else .ok (run.status, TaskRun.answer run)

inductive Change where
  | policy (policy : Policy)
  | project (projectId : String) (project : Project)
  /-- The mode, the model and the state of a chat; its origin and servers stay. -/
  | thread (threadId : String) (observe free archived : Bool) (model thinking : String)
  | deleteThread (threadId : String)
  | progress (taskId : String) (status : TaskStatus) (message : Option String)
  | forget (taskId : String)

def progressed (run : TaskRun) (status : TaskStatus) (message : Option String) : TaskRun :=
  if run.status.isTerminal then run else { run with status := status, message := message }

def apply (b : Bridge) : Change → Bridge
  | .policy policy => { b with policy := policy }
  | .project projectId project => { b with projects := b.projects.set projectId project }
  | .thread threadId observe free archived model thinking =>
    { b with threads := b.threads.update threadId fun thread =>
        { thread with
          observe := observe
          free := free && !archived
          archived := archived
          effectiveModel := model
          effectiveThinking := thinking } }
  | .deleteThread threadId =>
    { b with
      threads := b.threads.erase threadId
      runs := b.runs.filter fun _ run => run.threadId ≠ threadId }
  | .progress taskId status message =>
    { b with runs := b.runs.update taskId fun run => progressed run status message }
  | .forget taskId =>
    { b with runs := b.runs.update taskId fun run => { run with message := none } }

end Bridge

end CodexBridge.Assist
