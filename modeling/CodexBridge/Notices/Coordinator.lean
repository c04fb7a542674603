import CodexBridge.Automations.Store
import CodexBridge.Library.Percent

/-! # Notices of scheduled runs

The coordinator polls the run history of the Bridge and calls a notification service for each
run and destination. A receipt is saved before the call. The task is cut at its awaits and at
the turns of its loops, so a change of the store, a close or a restart can come in between.
-/

namespace CodexBridge.Notices

open Automations

/-! ## Receipts -/

inductive ReceiptState where
  | unavailable | attempted

abbrev Receipts := Dict String ReceiptState

/-- `f"{run_id}:{destination}"`. -/
def receiptKey (runId destination : String) : String := runId ++ ":" ++ destination

def maxReceipts : Nat := 50000

def trimmed (limit : Nat) (receipts : Receipts) : Receipts :=
  receipts.drop (receipts.size - limit)

def isRunId (value : String) : Bool :=
  "autrun_".toList.isPrefixOf value.toList &&
    PyText.isLowerHex 32 (String.ofList (value.toList.drop 7))

def isThreadId (value : String) : Bool :=
  1 ≤ value.length && value.length ≤ 200 &&
    value.toList.all fun c => c.isAlphanum || c = '_' || c = '.' || c = ':' || c = '-'

/-- `_ATTENTION`. -/
def needsAttention : RunStatus → Bool
  | .failed | .blocked | .interruptedRestart | .skippedOverlap | .skippedCapacity
  | .skippedMisfire | .skippedPaused => true
  | _ => false

/-- `_LABELS`; the statuses that have one are `_ALL`. -/
def statusLabel : RunStatus → Option String
  | .completed => some "completed"
  | .failed => some "failed"
  | .blocked => some "needs attention"
  | .interruptedRestart => some "was interrupted"
  | .skippedOverlap => some "was skipped because another run was active"
  | .skippedCapacity => some "was skipped because capacity was unavailable"
  | .skippedMisfire => some "was skipped after its scheduled time"
  | .skippedPaused => some "was skipped while paused"
  | .cancelled => some "was cancelled"
  | .queued | .running => none

/-- The status calls for a notice under both the current settings and those of the claim. -/
def isWanted (current snapshot : Notifications) (status : RunStatus) : Bool :=
  if snapshot.policy = .all && current.policy = .all then (statusLabel status).isSome
  else needsAttention status

def persistentDestination : String := "persistent"

/-- The destinations selected now and when the run was claimed. -/
def destinations (current snapshot : Notifications) : List String :=
  (if current.persistent && snapshot.persistent then [persistentDestination] else []) ++
    current.mobileTargets.filter fun target => target ∈ snapshot.mobileTargets

/-- The destinations of `_deliver` that have no receipt yet. -/
def pendingDestinations (receipts : Receipts) (definition : Automation) (run : Run) : List String :=
  if !isRunId run.automationRunId || (statusLabel run.status).isNone then []
  else if run.notificationsRevision ≠ definition.notificationsRevision then []
  else if run.notifications.policy = .off then []
  else if !isWanted definition.notifications run.notifications run.status then []
  else (destinations definition.notifications run.notifications).filter fun target =>
    !receipts.contains (receiptKey run.automationRunId target)

/-- `" ".join(name.split())[:80]`. -/
def noticeName (name : String) : String :=
  String.ofList ((PyText.collapse name).toList.take 80)

def threadOf (run : Run) : Option String := run.threadId.filter fun id => isThreadId id

def noticePath (run : Run) : String :=
  match threadOf run with
  | some id => "/codex-bridge?thread=" ++ String.ofList (Percent.encode id.toUTF8.toList)
  | none => "/codex-bridge"

def wantsPreview (definition : Automation) (run : Run) (pending : List String) : Bool :=
  definition.notifications.preview && run.notifications.preview &&
    (pending.any fun target => target ≠ persistentDestination) &&
    run.status = .completed && (threadOf run).isSome

structure Notice where
  runId : String
  destination : String
  title : String
  message : String
  path : String

/-- The call for a destination; the persistent notice keeps private details out. -/
def notice (run : Run) (name message destination : String) : Notice :=
  let path := noticePath run
  if destination = persistentDestination then
    ⟨run.automationRunId, destination, "Codex Bridge",
      "A scheduled task has an update.\n\n[Open Codex Bridge](" ++ path ++ ")", path⟩
  else ⟨run.automationRunId, destination, "Codex Bridge: " ++ name, message, path⟩

structure Place where
  definition : Automation
  later : List Automation
  runs : List Run

structure Delivery where
  place : Place
  run : Run
  name : String
  message : String
  pending : List String

inductive Task where
  | idle
  /-- Awaits `async_list_automations`. -/
  | listing
  | definitions (rest : List Automation)
  /-- Awaits `async_list_automation_runs`. -/
  | fetching (definition : Automation) (later : List Automation)
  | runs (place : Place)
  /-- Awaits `async_automation_run_preview`. -/
  | previewing (delivery : Delivery)
  | destinations (delivery : Delivery)
  | saving (delivery : Delivery) (destination : String) (state : ReceiptState)
  | calling (delivery : Delivery)

structure Coordinator where
  receipts : Receipts
  /-- The receipts were read: `_remove_timer` has been set. -/
  loaded : Bool
  closed : Bool
  task : Task

def Coordinator.fresh : Coordinator := ⟨Dict.empty, false, false, .idle⟩

def statusMessage (run : Run) : String :=
  "Scheduled task " ++ (statusLabel run.status).getD "" ++ "."

/-- `_deliver` up to its first await. -/
def deliver (receipts : Receipts) (definition : Automation) (later : List Automation) (run : Run)
    (runs : List Run) : Task :=
  let place : Place := ⟨definition, later, runs⟩
  let pending := pendingDestinations receipts definition run
  let name := noticeName definition.name
  if pending.isEmpty || name = "" then .runs place
  else
    let delivery : Delivery := ⟨place, run, name, statusMessage run, pending⟩
    if wantsPreview definition run pending then .previewing delivery else .destinations delivery

namespace Coordinator

/-- The claim that the next turn of the loop over the destinations makes. -/
def claiming (c : Coordinator) : Option (Delivery × String) :=
  match c.task with
  | .destinations delivery =>
    match delivery.pending with
    | [] => none
    | destination :: rest =>
      if c.closed || c.receipts.contains (receiptKey delivery.run.automationRunId destination)
      then none
      else some ({ delivery with pending := rest }, destination)
  | _ => none

/-- `_claim` up to its save. -/
def claim (limit : Nat) (c : Coordinator) (delivery : Delivery) (destination : String)
    (state : ReceiptState) : Coordinator :=
  let key := receiptKey delivery.run.automationRunId destination
  { c with
    receipts := trimmed limit (c.receipts.set key state)
    task := .saving delivery destination state }

/-- A turn of a loop of `async_refresh` or `_deliver`, to the next turn or await. -/
def advance (limit : Nat) (c : Coordinator) (available : Bool) : Option Coordinator :=
  match c.claiming with
  | some (delivery, destination) =>
    -- an unavailable destination is recorded once and never called
    some (c.claim limit delivery destination (if available then .attempted else .unavailable))
  | none =>
    match c.task with
    | .definitions [] => some { c with task := .idle }
    | .definitions (definition :: later) =>
      if c.closed then some { c with task := .idle }
      else if definition.notifications.policy = .off then
        some { c with task := .definitions later }
      else some { c with task := .fetching definition later }
    | .runs ⟨_, later, []⟩ => some { c with task := .definitions later }
    | .runs ⟨definition, later, run :: rest⟩ =>
      if c.closed then some { c with task := .idle }
      else some { c with task := deliver c.receipts definition later run rest }
    | .destinations delivery =>
      match delivery.pending with
      | [] => some { c with task := .runs delivery.place }
      | _ :: rest =>
        if c.closed then some { c with task := .runs delivery.place }
        else some { c with task := .destinations { delivery with pending := rest } }
    | _ => none

end Coordinator

/-- `AutomationStore.list`, by name without regard to case. -/
def listAutomations (lower : String → String) (s : State) : List Automation :=
  s.automations.values.insertionSort fun a b =>
    lower a.name < lower b.name ∨ (lower a.name = lower b.name ∧ a.automationId ≤ b.automationId)

def isListedBefore (a b : Run) : Bool :=
  b.createdAt < a.createdAt ||
    (a.createdAt = b.createdAt && decide (b.automationRunId ≤ a.automationRunId))

def listRuns (s : State) (automationId : String) (limit : Nat) : List Run :=
  ((s.runs.values.filter fun r => r.automationId = automationId).insertionSort
    fun a b => isListedBefore a b = true).take limit

/-- The store, the receipts file and the coordinator of the running process. The last three
fields record what happened: the run identifiers drawn, the receipts whose save returned and
the services called, newest first. -/
structure World where
  store : Store
  file : Receipts
  coordinator : Coordinator
  drawn : List String
  claimed : List (String × String)
  calls : List Notice

def World.initial : World := ⟨Store.initial, Dict.empty, .fresh, [], [], []⟩

inductive Label where
  | store (call : Call)
  | start (loads : Bool)
  | refresh
  | respond
  | respondPreview (text : Option String)
  | requestFails
  | advance (available : Bool)
  | saved
  | saveFails (landed : Bool)
  | returns
  | close
  /-- A new process; a save under way may have replaced the file. -/
  | restart (landed : Bool)

def drawnRun : Call → Option String
  | .claim _ _ _ _ _ _ uuid _ _ => some ("autrun_" ++ uuid)
  | .runNow _ _ _ _ uuid _ _ => some ("autrun_" ++ uuid)
  | _ => none

namespace World

def withCoordinator (w : World) (c : Coordinator) : World := { w with coordinator := c }

def withTask (w : World) (task : Task) : World :=
  w.withCoordinator { w.coordinator with task := task }

def callStore (env : Environment) (w : World) (call : Call) : Option World :=
  let drawn := (drawnRun call).toList
  if drawn.any fun id => id ∈ w.drawn then none
  else (Automations.next env w.store call).map fun s =>
    { w with store := s, drawn := drawn ++ w.drawn }

/-- `async_start`; a load that raises leaves no timer. -/
def start (w : World) (loads : Bool) : Option World :=
  let c := w.coordinator
  if c.closed || c.loaded then none
  else if loads then some (w.withCoordinator { c with receipts := w.file, loaded := true })
  else some w

def respond (lower : String → String) (w : World) : Option World :=
  let c := w.coordinator
  match c.task with
  | .listing =>
    if c.closed then some (w.withTask .idle)
    else some (w.withTask (.definitions (listAutomations lower w.store.state)))
  | .fetching definition later =>
    match w.store.state.automations.get? definition.automationId with
    | none => some (w.withTask .idle)
    | some _ =>
      if c.closed then some (w.withTask (.definitions later))
      else
        let runs := (listRuns w.store.state definition.automationId 200).reverse
        some (w.withTask (.runs ⟨definition, later, runs⟩))
  | _ => none

/-- The preview arrives; `none` stands also for a `BridgeApiError`. -/
def respondPreview (w : World) (text : Option String) : Option World :=
  match w.coordinator.task with
  | .previewing delivery =>
    if w.coordinator.closed then some (w.withTask (.runs delivery.place))
    else
      let suffix := match text with
        | some preview => if preview = "" then "" else " " ++ preview
        | none => ""
      some (w.withTask (.destinations { delivery with message := delivery.message ++ suffix }))
  | _ => none

def requestFails (w : World) : Option World :=
  match w.coordinator.task with
  | .listing => some (w.withTask .idle)
  | .fetching _ _ => some (w.withTask .idle)
  | .previewing _ => some (w.withTask .idle)
  | _ => none

def saved (w : World) : Option World :=
  match w.coordinator.task with
  | .saving delivery destination state =>
    let w := { w with
      file := w.coordinator.receipts
      claimed := (delivery.run.automationRunId, destination) :: w.claimed }
    match state with
    | .unavailable => some (w.withTask (.destinations delivery))
    | .attempted =>
      if w.coordinator.closed then some (w.withTask (.runs delivery.place))
      else
        let call := notice delivery.run delivery.name delivery.message destination
        some { w.withTask (.calling delivery) with calls := call :: w.calls }
  | _ => none

def saveFails (w : World) (landed : Bool) : Option World :=
  match w.coordinator.task with
  | .saving delivery destination _ =>
    let c := w.coordinator
    let receipts := c.receipts.erase (receiptKey delivery.run.automationRunId destination)
    some { w with
      file := if landed then c.receipts else w.file
      coordinator := { c with receipts := receipts, task := .idle } }
  | _ => none

def underWay (w : World) : Receipts :=
  match w.coordinator.task with
  | .saving _ _ _ => w.coordinator.receipts
  | _ => w.file

def next (env : Environment) (lower : String → String) (limit : Nat) (w : World) :
    Label → Option World
  | .store call => w.callStore env call
  | .start loads => w.start loads
  | .refresh =>
    -- a refresh that waited for the lock may find the coordinator closed
    match w.coordinator.loaded, w.coordinator.task with
    | true, .idle => some (w.withTask .listing)
    | _, _ => none
  | .respond => w.respond lower
  | .respondPreview text => w.respondPreview text
  | .requestFails => w.requestFails
  | .advance available => (w.coordinator.advance limit available).map w.withCoordinator
  | .saved => w.saved
  | .saveFails landed => w.saveFails landed
  | .returns =>
    match w.coordinator.task with
    | .calling delivery => some (w.withTask (.destinations delivery))
    | _ => none
  | .close => some (w.withCoordinator { w.coordinator with closed := true })
  | .restart landed =>
    some { w with
      file := if landed then w.underWay else w.file
      coordinator := .fresh }

end World

/-- A task whose outcomes are all shown as persistent notices. -/
def noticePayload (name : String) : List (String × Json) :=
  [("name", .str name), ("prompt", .str "Check the backup"),
    ("target", .obj [("kind", .str "standalone"), ("project_id", .str "home")]),
    ("schedule", .obj [("kind", .str "once"), ("at", .str "2030-01-01T00:00:00Z")]),
    ("notifications", .obj [("policy", .str "all"), ("persistent", .bool true),
      ("mobile_targets", .arr []), ("preview", .bool false)])]

end CodexBridge.Notices
