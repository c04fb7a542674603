import CodexBridge.Library.Effect
import CodexBridge.Library.Json
import CodexBridge.Library.JsonText
import CodexBridge.Library.Runs

/-! # The goal of a chat

`goals.py`. A chat has one goal at a time, in a file of its own. The locks make every call
atomic; a dispatch guard keeps the dispatch lock until its caller has marked the dispatch.
-/

namespace CodexBridge.Goals

open Effect JsonText

/-! ## Records -/

inductive GoalStatus where
  | active
  | paused
  | completed
  | cancelled
  deriving DecidableEq

def GoalStatus.text : GoalStatus → String
  | .active => "active"
  | .paused => "paused"
  | .completed => "completed"
  | .cancelled => "cancelled"

def GoalStatus.isFinished (status : GoalStatus) : Bool :=
  status = .completed || status = .cancelled

structure GoalFields where
  goalId : String
  objective : String
  completionCriteria : List String
  progress : String
  status : GoalStatus
  activationRevision : Nat
  createdAt : String
  updatedAt : String
  deriving DecidableEq

def maxGoalBytes : Nat := 32 * 1024

def maxGoalHistory : Nat := 8

def maxGoalActions : Nat := 64

def quoted (s : String) : Text := quote (ofChars s.toList)

def commas (texts : List Text) : Text := (ofChars ", ".toList).intercalate texts

/-- `json.dumps(self.model_dump(...), ensure_ascii=False)`. -/
def GoalFields.json (g : GoalFields) : Text :=
  let member (key : String) (value : Text) : Text := quoted key ++ ofChars ": ".toList ++ value
  ofChars ['\x7b'] ++ commas
    [member "goal_id" (quoted g.goalId), member "objective" (quoted g.objective),
      member "completion_criteria"
        (ofChars ['['] ++ commas (g.completionCriteria.map quoted) ++ ofChars [']']),
      member "progress" (quoted g.progress), member "status" (quoted g.status.text),
      member "activation_revision" (integer g.activationRevision),
      member "created_at" (quoted g.createdAt), member "updated_at" (quoted g.updatedAt)] ++
    ofChars ['\x7d']

def isGoalId (s : String) : Bool :=
  s.toList.take 5 = "goal_".toList && PyText.isLowerHex 32 (String.ofList (s.toList.drop 5))

def GoalFields.isValid (g : GoalFields) : Bool :=
  isGoalId g.goalId && (1 ≤ g.objective.length && g.objective.length ≤ 4096) &&
    (1 ≤ g.completionCriteria.length && g.completionCriteria.length ≤ 16) &&
    g.progress.length ≤ 8192 && 1 ≤ g.activationRevision && PyText.strip g.objective ≠ "" &&
    (g.completionCriteria.all fun c => PyText.strip c ≠ "" && c.length ≤ 1024) &&
    (utf8Length g.json).any (· ≤ maxGoalBytes)

structure GoalRecord extends GoalFields where
  valid : toGoalFields.isValid = true
  deriving DecidableEq

/-- An immutable goal as a run was accepted with it. -/
structure GoalSnapshot where
  goal : GoalRecord
  workspacePath : String
  projectId : String
  active : goal.status = .active
  bounded : 1 ≤ workspacePath.length ∧ workspacePath.length ≤ 4096 ∧
    1 ≤ projectId.length ∧ projectId.length ≤ 128
  deriving DecidableEq

inductive ActionName where
  | create
  | edit
  | progress
  | pause
  | resume
  | complete
  | cancel
  deriving DecidableEq

structure ActionFields where
  action : ActionName
  expectedRevision : Nat
  clientRequestId : String
  objective : Option String
  completionCriteria : Option (List String)
  progress : Option String
  completionConfirmed : Bool
  deriving DecidableEq

def isRequestId (s : String) : Bool :=
  1 ≤ s.length && s.length ≤ 128 &&
    s.toList.all fun c => c.isAlphanum || c = '_' || c = '.' || c = ':' || c = '-'

/-- `action_fields`. -/
def ActionFields.agree (a : ActionFields) : Bool :=
  (a.action ≠ .create || (a.objective.isSome && a.completionCriteria.isSome)) &&
    (a.action ≠ .edit || a.objective.isSome || a.completionCriteria.isSome) &&
    (a.action = .create || a.action = .edit ||
      (a.objective.isNone && a.completionCriteria.isNone)) &&
    (a.action ≠ .progress || a.progress.isSome) &&
    (a.action = .create || a.action = .progress || a.progress.isNone) &&
    (a.action ≠ .complete || a.completionConfirmed) &&
    (a.action = .complete || !a.completionConfirmed)

def ActionFields.isValid (a : ActionFields) : Bool :=
  isRequestId a.clientRequestId &&
    (a.objective.all fun s => 1 ≤ s.length && s.length ≤ 4096) &&
    (a.completionCriteria.all fun cs => 1 ≤ cs.length && cs.length ≤ 16) &&
    (a.progress.all fun s => s.length ≤ 8192) && a.agree

/-- The content of a request, its expected revision included. -/
structure GoalAction extends ActionFields where
  valid : toActionFields.isValid = true
  deriving DecidableEq

/-- `F` is the type of the digests of actions. -/
structure ActionReceipt (F : Type) where
  clientRequestId : String
  fingerprint : F

structure GoalView where
  revision : Nat
  goal : Option GoalRecord
  history : List GoalRecord

structure GoalState (F : Type) extends GoalView where
  actions : List (ActionReceipt F)

/-- What a missing file stands for. -/
def GoalState.fresh (F : Type) : GoalState F := ⟨⟨0, none, []⟩, []⟩

inductive GoalError where
  | conflict (message : String)
  | revisionConflict (message : String)
  | unavailable (message : String)
  | stale (message : String)
  | invalid
  | storage

structure Thread where
  assistOrigin : Bool
  projectId : Option String
  archived : Bool
  workspacePath : String

/-- The chat, as far as the storage finds its records. -/
structure Chat where
  id : String
  managed : Bool
  thread : Option Thread
  projectArchived : Option Bool

/-- The durable state of a chat and the dispatch guard that is held. `applied` lists the actions
that became durable. -/
structure World (F : Type) where
  chat : Chat
  file : GoalState F
  guard : Option (Option GoalSnapshot)
  applied : List GoalAction

variable {F : Type}

def World.initial (F : Type) (chat : Chat) : World F := ⟨chat, .fresh F, none, []⟩

/-- `[A-Za-z0-9_-]{1,128}`. -/
def isThreadId (s : String) : Bool :=
  1 ≤ s.length && s.length ≤ 128 && s.toList.all fun c => c.isAlphanum || c = '_' || c = '-'

/-- `_thread`, with the id of its project. -/
def Chat.checkThread (c : Chat) (mutate : Bool) : Except GoalError (Thread × String × Bool) := do
  refuse (isThreadId c.id = false) (.unavailable "Invalid local chat.")
  refuse (c.managed = false) (.unavailable "Goals require the managed Home Assistant runtime.")
  match c.thread, c.projectArchived with
  | none, _ => .error .storage
  | some thread, project =>
    match thread.projectId with
    | none => .error (.unavailable "Goals are available only in ordinary chats.")
    | some projectId => do
        refuse (thread.assistOrigin = true ∨ projectId = "")
          (.unavailable "Goals are available only in ordinary chats.")
        match project with
        | none => .error .storage
        | some archived => do
            refuse (mutate = true ∧ (thread.archived = true ∨ archived = true))
              (.conflict "Restore the chat and project before changing its goal.")
            .ok (thread, projectId, archived)

/-- `_load`, after a reconcile; either may fail at any time. -/
def World.load (w : World F) (fails : Bool) : Except GoalError (GoalState F) :=
  if fails then .error .storage else .ok w.file

def World.get (w : World F) (fails : Bool) : Except GoalError GoalView := do
  let _ ← w.chat.checkThread false
  let state ← w.load fails
  .ok state.toGoalView

def GoalFields.modelValidate (g : GoalFields) : Except GoalError GoalRecord :=
  if h : g.isValid = true then .ok ⟨g, h⟩ else .error .invalid

def ActionName.status : ActionName → GoalStatus
  | .resume => .active
  | .complete => .completed
  | .cancel => .cancelled
  | _ => .paused

def createGoal (state : GoalState F) (a : GoalAction) (now goalId : String) :
    Except GoalError GoalRecord := do
  refuse (state.goal.any (fun goal => !goal.status.isFinished) = true)
    (.conflict "Complete or cancel the existing goal before creating another.")
  GoalFields.modelValidate
    ⟨goalId, a.objective.getD "", a.completionCriteria.getD [], a.progress.getD "", .paused,
      state.revision + 1, now, now⟩

def changeGoal (state : GoalState F) (goal : GoalRecord) (a : GoalAction) (now : String) :
    Except GoalError GoalRecord := do
  refuse (goal.status.isFinished = true)
    (.conflict "This goal is finished. Create a new goal to continue.")
  let values := goal.toGoalFields
  match a.action with
  | .edit => do
      refuse (goal.status ≠ .paused)
        (.conflict "Pause the goal before editing its objective or criteria.")
      GoalFields.modelValidate { values with
        objective := a.objective.getD values.objective
        completionCriteria := a.completionCriteria.getD values.completionCriteria
        updatedAt := now }
  | .progress =>
    GoalFields.modelValidate { values with
      progress := a.progress.getD "", updatedAt := now }
  | action =>
    GoalFields.modelValidate { values with
      status := action.status, activationRevision := state.revision + 1, updatedAt := now }

def nextGoal (state : GoalState F) (a : GoalAction) (now goalId : String) :
    Except GoalError GoalRecord :=
  if a.action = .create then createGoal state a now goalId
  else
    match state.goal with
    | none => .error (.conflict "This goal is finished. Create a new goal to continue.")
    | some goal => changeGoal state goal a now

/-- `values[-n:]`. -/
def lastItems {α : Type} (n : Nat) (values : List α) : List α := values.drop (values.length - n)

/-- How the commit of an operation ends: the file is written, nothing is durable, or the call
raises after the operation became durable. -/
inductive Commit where
  | stored
  | refused
  | pending

structure Faults where
  load : Bool
  commit : Commit
  readback : Bool

section

variable [DecidableEq F] (digest : GoalAction → F)

/-- `apply` up to its commit: `none` is a replay. -/
def World.plan (w : World F) (a : GoalAction) (now goalId : String) (fails : Bool) :
    Except GoalError (Option (GoalState F)) := do
  let _ ← w.chat.checkThread true
  let state ← w.load fails
  match state.actions.find? fun r => r.clientRequestId = a.clientRequestId with
  | some receipt => do
      refuse (receipt.fingerprint ≠ digest a)
        (.revisionConflict "This action identity already has different content.")
      .ok none
  | none => do
      refuse (a.expectedRevision ≠ state.revision)
        (.revisionConflict "The goal changed. Refresh before trying again.")
      let goal ← nextGoal state a now goalId
      let history :=
        if a.action = .create then lastItems maxGoalHistory (state.history ++ state.goal.toList)
        else state.history
      .ok (some ⟨⟨state.revision + 1, some goal, history⟩,
        lastItems maxGoalActions (state.actions ++ [⟨a.clientRequestId, digest a⟩])⟩)

/-- `apply`: its answer, and the state that becomes durable. -/
def World.apply (w : World F) (a : GoalAction) (now goalId : String) (f : Faults) :
    Except GoalError GoalView × Option (GoalState F) :=
  match w.plan digest a now goalId f.load with
  | .error e => (.error e, none)
  | .ok none => (w.get f.readback, none)
  | .ok (some state) =>
    match f.commit with
    | .stored => (World.get { w with file := state } f.readback, some state)
    | .refused => (.error .storage, none)
    | .pending => (.error .storage, some state)

end

def World.capture (w : World F) (fails : Bool) : Except GoalError (Option GoalSnapshot) := do
  let (thread, projectId, _) ← w.chat.checkThread false
  let state ← w.load fails
  match state.goal with
  | none => .ok none
  | some goal =>
    if h : goal.status = .active ∧ thread.archived = false then
      if hb : 1 ≤ thread.workspacePath.length ∧ thread.workspacePath.length ≤ 4096 ∧
          1 ≤ projectId.length ∧ projectId.length ≤ 128 then
        .ok (some ⟨goal, thread.workspacePath, projectId, h.1, hb⟩)
      else .error .invalid
    else .ok none

def World.validateSnapshot (w : World F) (snapshot : GoalSnapshot) (fails : Bool) :
    Except GoalError Unit := do
  let (thread, projectId, archived) ← w.chat.checkThread false
  let state ← w.load fails
  let stale := GoalError.stale
    "The accepted goal changed or was paused/cancelled. Resubmit deliberately."
  match state.goal with
  | none => .error stale
  | some current =>
    refuse (current.status ≠ .active ∨ current.goalId ≠ snapshot.goal.goalId ∨
      current.activationRevision ≠ snapshot.goal.activationRevision ∨
      thread.workspacePath ≠ snapshot.workspacePath ∨ projectId ≠ snapshot.projectId ∨
      thread.archived = true ∨ archived = true) stale

/-- What can happen to a chat; everything left open is part of the label. -/
inductive Label where
  | apply (action : GoalAction) (now goalId : String) (faults : Faults)
  | capture (fails : Bool)
  | enter (snapshot : Option GoalSnapshot) (fails : Bool)
  | leave
  | change (thread : Option Thread) (projectArchived : Option Bool)

variable [DecidableEq F] (digest : GoalAction → F)

def World.next (w : World F) : Label → Option (World F)
  | .apply a now goalId faults =>
    if w.guard.isSome then none
    else
      match (w.apply digest a now goalId faults).2 with
      | none => some w
      | some state => some { w with file := state, applied := w.applied ++ [a] }
  | .capture _ => some w
  | .enter snapshot fails =>
    if w.guard.isSome then none
    else
      match snapshot with
      | none => some { w with guard := some none }
      | some shown =>
        match w.validateSnapshot shown fails with
        | .error _ => some w
        | .ok _ => some { w with guard := some (some shown) }
  | .leave => if w.guard.isSome then some { w with guard := none } else none
  | .change thread projectArchived =>
    some { w with chat := { w.chat with thread := thread, projectArchived := projectArchived } }

end CodexBridge.Goals
