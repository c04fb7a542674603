import CodexBridge.Library.Dict
import CodexBridge.Library.Json

/-! # Automation definitions and execution claims

The records of the automation store and the checks a definition passes before it
is stored. A clock reading counts microseconds since the epoch; a stored time
(every field ending in `At`) counts whole seconds, so writing a reading drops its
fraction.
-/

namespace CodexBridge.Automations

/-- `_iso`: microseconds to whole seconds, the fraction truncated. -/
def iso (value : Int) : Int := value / 1000000

/-- `_parse_datetime` of a text written by `iso`. -/
def instantOf (value : Int) : Int := value * 1000000

inductive AutomationError where
  | notFound (message : String)
  | conflict (message : String)
  | invalidSchedule (message : String)
  | invalid (message : String)
  | typeError
  | valueError
  /-- `OverflowError` of date arithmetic past the last representable year. -/
  | overflow
  /-- The operating system refused a step of the atomic file write. -/
  | storage
  deriving DecidableEq

/-! ## Statuses -/

inductive RunStatus where
  | queued | running
  | completed | failed | cancelled | blocked | interruptedRestart
  | skippedOverlap | skippedCapacity | skippedMisfire | skippedPaused
  deriving DecidableEq

/-- `_ACTIVE_STATUSES`. -/
def RunStatus.isActive : RunStatus → Bool
  | .queued | .running => true
  | _ => false

/-- `_TERMINAL_STATUSES`. -/
def RunStatus.isTerminal : RunStatus → Bool
  | .completed | .failed | .cancelled | .blocked | .interruptedRestart => true
  | _ => false

theorem RunStatus.isActive_eq_false_of_isTerminal {s : RunStatus} (h : s.isTerminal = true) :
    s.isActive = false := by
  cases s <;> simp_all [isTerminal, isActive]

inductive Source where
  | scheduled | manual
  deriving DecidableEq

inductive WebSearch where
  | live | disabled

structure IntervalSeconds where
  value : Nat
  bounds : 60 ≤ value ∧ value ≤ 31536000
  deriving DecidableEq

inductive Schedule where
  | once (at_ : Int)
  | interval (seconds : IntervalSeconds) (anchorAt : Int)
  | rrule (rule : String) (startAt : Int) (timezone : String)
  deriving DecidableEq

/-- A value of a definition: what the client sent under the key, if anything, or
the value of a stored record, which has passed its check. -/
inductive Given (α : Type) where
  | sent (value : Option Json)
  | kept (value : α)

def Given.check {ε α : Type} (f : Option Json → Except ε α) : Given α → Except ε α
  | .sent value => f value
  | .kept value => .ok value

inductive Target where
  | standalone (projectId : String)
  | continueThread (threadId : String)

inductive Mode where
  | observe | edit | fullAuto | haosFullAccess

inductive NotificationPolicy where
  | off | attention | all
  deriving DecidableEq

structure Notifications where
  policy : NotificationPolicy
  persistent : Bool
  mobileTargets : List String
  preview : Bool
  deriving DecidableEq

def defaultNotifications : Notifications := ⟨.off, false, [], false⟩

structure Automation where
  automationId : String
  revision : Nat
  name : String
  prompt : String
  target : Target
  mode : Mode
  model : Option String
  thinking : Option String
  hostAccessGrant : Option String
  hostUnattendedApproved : Bool
  schedule : Schedule
  notifications : Notifications
  notificationsRevision : Nat
  enabled : Bool
  createdAt : Int
  updatedAt : Int
  nextRunAt : Option Int
  lastRunAt : Given Int
  lastStatus : Given RunStatus

structure Run where
  automationRunId : String
  automationId : String
  source : Source
  dueAt : Int
  status : RunStatus
  dispatchable : Bool
  idempotencyKey : String
  createdAt : Int
  startedAt : Option Int
  completedAt : Option Int
  bridgeRunId : Option String
  error : Option String
  webSearch : Option WebSearch
  threadId : Option String
  notifications : Notifications
  notificationsRevision : Nat

structure CreateRequest where
  automationId : String
  fingerprint : String
  deletedAt : Option Int

/-- `_is_pending_runtime_link`: finished before dispatch recorded its start. -/
def isPendingRuntimeLink (run : Run) : Bool :=
  run.status.isTerminal && run.bridgeRunId.isSome && run.startedAt.isNone

/-- The contents of `automations.json`. -/
structure State where
  automations : Dict String Automation
  runs : Dict String Run
  idempotency : Dict String String
  createRequests : Dict String CreateRequest

def State.empty : State := ⟨Dict.empty, Dict.empty, Dict.empty, Dict.empty⟩

/-! ## Environment

The recurrence rules, time zones and date parsing are library code; the target
validator and the create fingerprint are handed in by the App.
-/

/-- `datetime.fromisoformat` after the `Z` rewrite, then `astimezone(UTC)`. -/
inductive ParsedDate where
  | malformed
  | naive
  | outOfRange
  | instant (value : Int)
  deriving DecidableEq

/-- `ZoneInfo(name)`, with the `key` of the zone found. -/
inductive ZoneLookup where
  | found (key : String)
  | notFound
  | malformed

/-- Store limits and the functions the store calls but does not own. -/
structure Environment where
  maxRunsPerAutomation : Nat
  maxTotalRuns : Nat
  maxDeletedCreateRequests : Nat
  misfireGrace : Nat
  limits : 1 ≤ maxRunsPerAutomation ∧ maxRunsPerAutomation ≤ maxTotalRuns ∧
    1 ≤ maxDeletedCreateRequests
  targetValidator : Target → Except AutomationError Unit
  fromIsoformat : String → ParsedDate
  /-- The text `_iso` writes for a whole second. -/
  isoText : Int → String
  zoneInfo : String → ZoneLookup
  /-- `rrulestr(rule, dtstart)` parses and evaluates at its start. -/
  rruleParses : (rule : String) → (start : Int) → (zone : String) → Bool
  /-- `rrulestr(rule, dtstart).after(instant, inc=False)`, `none` also on its errors. -/
  rruleAfter : (rule : String) → (start : Int) → (zone : String) → Int → Option Int
  createFingerprint : List (String × Json) → String
  datetimeMax : Int

def text (value : Json) (field : String) (limit : Nat) : Except AutomationError String :=
  match value.str? with
  | some s =>
    if PyText.isTrimmed s && PyText.utf8Length s ≤ limit then .ok s
    else .error (.invalid (field ++ " is invalid"))
  | none => .error (.invalid (field ++ " is invalid"))

def identifier (value : String) (field : String) : Except AutomationError String :=
  text (.str value) field 256

theorem identifier_eq_ok {value field s : String} (h : identifier value field = .ok s) :
    s = value := by
  unfold identifier text at h
  simp only [Json.str?] at h
  split at h
  · cases h
    rfl
  · cases h

def parseDatetime (env : Environment) (value : Json) (field : String) :
    Except AutomationError Int :=
  match value.str? with
  | some s =>
    if s.length ≤ 64 then
      match env.fromIsoformat s with
      | .instant value => .ok value
      | .naive => .error (.invalidSchedule (field ++ " must include a timezone"))
      | .outOfRange => .error .overflow
      | .malformed => .error (.invalidSchedule (field ++ " is invalid"))
    else .error (.invalidSchedule (field ++ " is invalid"))
  | none => .error (.invalidSchedule (field ++ " is invalid"))

def normalizeTarget : Json → Except AutomationError Target
  | .obj fields =>
    match (Json.field? fields "kind").bind Json.str? with
    | some "standalone" =>
      if Json.hasExactly fields ["kind", "project_id"] then
        (text ((Json.field? fields "project_id").getD .null) "project id" 256).map .standalone
      else .error (.invalid "automation target is invalid")
    | some "continue_thread" =>
      if Json.hasExactly fields ["kind", "thread_id"] then
        (text ((Json.field? fields "thread_id").getD .null) "thread id" 256).map .continueThread
      else .error (.invalid "automation target is invalid")
    | _ => .error (.invalid "automation target is invalid")
  | _ => .error (.invalid "automation target is invalid")

/-- `_MOBILE_NOTIFY_SERVICE.fullmatch`. -/
def isMobileNotifyService (target : String) : Bool :=
  let body := target.toList.drop 11
  "mobile_app_".toList.isPrefixOf target.toList && 1 ≤ body.length && body.length ≤ 100 &&
    body.all fun c => c.isDigit || ('a' ≤ c && c ≤ 'z') || c = '_'

def NotificationPolicy.parse : String → Option NotificationPolicy
  | "off" => some .off
  | "attention" => some .attention
  | "all" => some .all
  | _ => none

def normalizeNotifications : Json → Except AutomationError Notifications
  | .null => .ok defaultNotifications
  | .obj fields =>
    let invalid := AutomationError.invalid "notification settings are invalid"
    if !Json.hasExactly fields ["policy", "persistent", "mobile_targets", "preview"] then
      .error invalid
    else
      match ((Json.field? fields "policy").bind Json.str?).bind NotificationPolicy.parse,
        (Json.field? fields "persistent").bind Json.bool?,
        Json.field? fields "mobile_targets",
        (Json.field? fields "preview").bind Json.bool? with
      | some policy, some persistent, some (.arr items), some preview =>
        let targets := items.filterMap Json.str?
        if targets.length = items.length && items.length ≤ 8 &&
            targets.all isMobileNotifyService && decide targets.Nodup &&
            !(policy != .off && !persistent && targets.isEmpty) &&
            !(preview && targets.isEmpty) then
          .ok ⟨policy, persistent, targets, preview⟩
        else .error invalid
      | _, _, _, _ => .error invalid
  | _ => .error (.invalid "notification settings are invalid")

def normalizeSchedule (env : Environment) : Json → Except AutomationError Schedule
  | .obj fields =>
    let get := fun key => (Json.field? fields key).getD .null
    match (get "kind").str? with
    | some "once" =>
      if Json.hasExactly fields ["kind", "at"] then
        (parseDatetime env (get "at") "schedule time").map fun t => .once (iso t)
      else .error (.invalidSchedule "automation schedule is invalid")
    | some "interval" =>
      if Json.hasExactly fields ["kind", "seconds", "anchor_at"] then
        match (get "seconds").int? with
        | some seconds =>
          if h : 60 ≤ seconds.toNat ∧ seconds.toNat ≤ 31536000 then
            (parseDatetime env (get "anchor_at") "interval anchor").map fun t =>
              .interval ⟨seconds.toNat, h⟩ (iso t)
          else .error (.invalidSchedule "interval seconds are invalid")
        | none => .error (.invalidSchedule "interval seconds are invalid")
      else .error (.invalidSchedule "automation schedule is invalid")
    | some "rrule" =>
      if Json.hasExactly fields ["kind", "rule", "start_at", "timezone"] then do
        let rule ← text (get "rule") "recurrence rule" 512
        if !("RRULE:".toList.isPrefixOf rule.toList) || rule.contains '\n' ||
            rule.contains '\r' then
          .error (.invalidSchedule "recurrence rule is invalid")
        else
          let name ← text (get "timezone") "timezone" 128
          match env.zoneInfo name with
          | .notFound => .error (.invalidSchedule "timezone is invalid")
          | .malformed => .error .valueError
          | .found zone =>
            let start ← parseDatetime env (get "start_at") "recurrence start"
            if env.rruleParses rule start zone then .ok (.rrule rule (iso start) zone)
            else .error (.invalidSchedule "recurrence rule is invalid")
      else .error (.invalidSchedule "automation schedule is invalid")
    | _ => .error (.invalidSchedule "automation schedule is invalid")
  | _ => .error (.invalidSchedule "automation schedule is invalid")

def normalizeWebSearch : Json → Except AutomationError (Option WebSearch)
  | .null => .ok none
  | .str "live" => .ok (some .live)
  | .str "disabled" => .ok (some .disabled)
  | _ => .error (.invalid "web_search is invalid")

def safeError : Json → String
  | .str s =>
    let collapsed := String.ofList ((PyText.collapse s).toList.take 320)
    if collapsed = "" then "automation dispatch failed" else collapsed
  | _ => "automation dispatch failed"

end CodexBridge.Automations
