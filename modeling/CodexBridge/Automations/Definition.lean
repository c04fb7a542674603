import CodexBridge.Automations.Schedule

/-! # Definitions from client payloads

`_new_record` builds a record from a payload on creation and from the merge of a
stored record with its changes on update, and runs the same checks on both.
-/

namespace CodexBridge.Automations

/-- The keys `_new_record` reads. -/
structure Candidate where
  name : Given String
  prompt : Given String
  mode : Given Mode
  hostAccessGrant : Given (Option String)
  hostUnattendedApproved : Given Bool
  target : Given Target
  schedule : Given Schedule
  model : Given (Option String)
  thinking : Given (Option String)
  notifications : Given Notifications
  lastRunAt : Given Int
  lastStatus : Given RunStatus

def Candidate.ofPayload (fields : List (String × Json)) : Candidate where
  name := .sent (Json.field? fields "name")
  prompt := .sent (Json.field? fields "prompt")
  mode := .sent (Json.field? fields "mode")
  hostAccessGrant := .sent (Json.field? fields "host_access_grant")
  hostUnattendedApproved := .sent (Json.field? fields "host_unattended_approved")
  target := .sent (Json.field? fields "target")
  schedule := .sent (Json.field? fields "schedule")
  model := .sent (Json.field? fields "model")
  thinking := .sent (Json.field? fields "thinking")
  notifications := .sent (Json.field? fields "notifications")
  lastRunAt := .sent (Json.field? fields "last_run_at")
  lastStatus := .sent (Json.field? fields "last_status")

def changed {α : Type} (changes : List (String × Json)) (key : String) (stored : α) : Given α :=
  match Json.field? changes key with
  | some value => .sent (some value)
  | none => .kept stored

/-- `{**record, **changes}`. -/
def Candidate.ofChanges (record : Automation) (changes : List (String × Json)) : Candidate where
  name := changed changes "name" record.name
  prompt := changed changes "prompt" record.prompt
  mode := changed changes "mode" record.mode
  hostAccessGrant := changed changes "host_access_grant" record.hostAccessGrant
  hostUnattendedApproved :=
    changed changes "host_unattended_approved" record.hostUnattendedApproved
  target := changed changes "target" record.target
  schedule := changed changes "schedule" record.schedule
  model := changed changes "model" record.model
  thinking := changed changes "thinking" record.thinking
  notifications := changed changes "notifications" record.notifications
  lastRunAt := record.lastRunAt
  lastStatus := record.lastStatus

def Mode.parse : String → Option Mode
  | "observe" => some .observe
  | "edit" => some .edit
  | "full-auto" => some .fullAuto
  | "haos-full-access" => some .haosFullAccess
  | _ => none

/-- `payload.get("mode", "observe")`; membership in a set needs a hashable value. -/
def normalizeMode : Option Json → Except AutomationError Mode
  | none => .ok .observe
  | some (.str s) =>
    match Mode.parse s with
    | some mode => .ok mode
    | none => .error (.invalid "automation mode is invalid")
  | some (.arr _) => .error .typeError
  | some (.obj _) => .error .typeError
  | some _ => .error (.invalid "automation mode is invalid")

def acceptableGrant : Given (Option String) → Option String
  | .sent (some (.str s)) => if PyText.isLowerHex 32 s then some s else none
  | .sent _ => none
  | .kept grant => grant

def isApproved : Given Bool → Bool
  | .sent (some (.bool b)) => b
  | .sent _ => false
  | .kept b => b

def hostAccess (mode : Mode) (grant : Given (Option String)) (approved : Given Bool) :
    Except AutomationError (Option String × Bool) :=
  match mode with
  | .haosFullAccess =>
    match acceptableGrant grant, isApproved approved with
    | some s, true => .ok (some s, true)
    | _, _ =>
      .error (.invalid "scheduled host access needs explicit unattended acknowledgement")
  | _ => .ok (none, false)

def optionalText (field : String) : Option Json → Except AutomationError (Option String)
  | none => .ok none
  | some .null => .ok none
  | some value => (text value field 160).map some

/-- `_next_run(schedule, now) if enabled else None`. -/
def nextRunIf (env : Environment) (enabled : Bool) (schedule : Schedule) (now : Int) :
    Except AutomationError (Option Int) :=
  if enabled then nextRun env schedule now else .ok none

/-- `_new_record`, given the identifier and the fields an update carries over. -/
def newRecord (env : Environment) (candidate : Candidate) (now : Int) (automationId : String)
    (revision : Nat) (createdAt : Int) (enabled : Bool) : Except AutomationError Automation := do
  let name ← candidate.name.check fun v => text (v.getD .null) "name" 160
  let prompt ← candidate.prompt.check fun v => text (v.getD .null) "prompt" 1048576
  let mode ← candidate.mode.check normalizeMode
  let host ← hostAccess mode candidate.hostAccessGrant candidate.hostUnattendedApproved
  let target ← candidate.target.check fun v => normalizeTarget (v.getD .null)
  env.targetValidator target
  let schedule ← candidate.schedule.check fun v => normalizeSchedule env (v.getD .null)
  let model ← candidate.model.check (optionalText "model")
  let thinking ← candidate.thinking.check (optionalText "thinking")
  let notifications ← candidate.notifications.check fun v =>
    normalizeNotifications (v.getD .null)
  let nextRunAt ← nextRunIf env enabled schedule now
  return {
    automationId := automationId
    revision := revision
    name := name
    prompt := prompt
    target := target
    mode := mode
    model := model
    thinking := thinking
    hostAccessGrant := host.1
    hostUnattendedApproved := host.2
    schedule := schedule
    notifications := notifications
    notificationsRevision := 1
    enabled := enabled
    createdAt := createdAt
    updatedAt := iso now
    nextRunAt := nextRunAt
    lastRunAt := candidate.lastRunAt
    lastStatus := candidate.lastStatus }

/-- What `_new_record` passes on, and that it computes the occurrence of the schedule
it accepted. -/
theorem newRecord_spec {env : Environment} {candidate : Candidate} {now : Int}
    {automationId : String} {revision : Nat} {createdAt : Int} {enabled : Bool}
    {record : Automation}
    (h : newRecord env candidate now automationId revision createdAt enabled = .ok record) :
    record.automationId = automationId ∧ record.revision = revision ∧
      nextRunIf env enabled record.schedule now = .ok record.nextRunAt ∧
      candidate.schedule.check (fun v => normalizeSchedule env (v.getD .null)) =
        .ok record.schedule := by
  unfold newRecord at h
  simp only [bind, Except.bind, pure, Except.pure] at h
  repeat' split at h
  all_goals cases h
  exact ⟨rfl, rfl, by assumption, by assumption⟩

end CodexBridge.Automations
