import CodexBridge.Host.Worker

/-! # Host access

Pairing, explicit consent and per-run authority. Each block under the manager's lock is one
action; a save inside it can fail or end the process at either side of the replacement of
the file. Replies of the worker reach an operation outside the lock.
-/

namespace CodexBridge.Host

open Effect Traces

/-! ## Data -/

structure HostPairing where
  host : String
  port : Nat
  token : String
  companionId : String
deriving DecidableEq

/-- The two entries of `_grant`. -/
structure Grant where
  grantId : String
  scopeRevision : String
deriving DecidableEq

/-- `HostLease`. Leases are compared by identity, which `object` stands for. -/
structure HostLease where
  runId : String
  grantId : String
  scopeRevision : String
  workerSession : String
  pairing : HostPairing
  object : Nat
deriving DecidableEq

/-- The payload of the worker's status, with the digest of its identity. -/
structure StatusReply where
  ready : Bool
  companionId : String
  scopeRevision : String
  sessionId : String

/-- What is found under the name `host-access.json`. -/
inductive File
  | missing
  | unreadable
  | saved (pairing : Option HostPairing) (grant : Option Grant)

def isHex (length : Nat) (s : String) : Bool :=
  s.length = length && s.toList.all fun c => '0' ≤ c && c ≤ '9' || 'a' ≤ c && c ≤ 'f'

def Grant.isValid (g : Grant) : Bool := isHex 32 g.grantId && isHex 64 g.scopeRevision

/-- The pairing and the grant that `HostAccessManager.__init__` takes from the file. -/
def File.load : File → Option HostPairing × Option Grant
  | .missing | .unreadable => (none, none)
  | .saved pairing none => (pairing, none)
  | .saved pairing (some g) => if g.isValid then (pairing, some g) else (none, none)

def File.restores (f : File) : Bool := f.load.2.isSome

inductive Fault
  | osError
  | died
  /-- `HostAccessError`. -/
  | hostAccess (detail : String)
deriving DecidableEq

def unsaved : Fault := .hostAccess
  "Host access is blocked in this Bridge, but revocation could not be saved. Stop the Host Access App before restarting Bridge."

/-- How a save or an unlinking ends; `effective` says whether the directory changed. -/
inductive Disk
  | done
  | failed (effective : Bool)
  | died (effective : Bool)
deriving DecidableEq

/-- What the disk does during one block under the lock. -/
structure Weather where
  /-- `_save_locked` inside `_revoke_locked`. -/
  revoking : Disk
  unlinking : Disk
  /-- `_save_locked` of the operation itself. -/
  saving : Disk

structure HostAccessManager where
  pairing : Option HostPairing
  grant : Option Grant
  leases : Dict String HostLease
  closed : Bool
  file : File
  /-- The leases given to `_cancel`. -/
  cancellations : List HostLease

namespace HostAccessManager

/-- `HostAccessManager.__init__` over a file that can be opened or not. -/
def load (file : File) (opened : Bool) (cancellations : List HostLease) : HostAccessManager where
  pairing := if opened then file.load.1 else none
  grant := if opened then file.load.2 else none
  leases := Dict.empty
  closed := false
  file := file
  cancellations := cancellations

def active (m : HostAccessManager) (lease : HostLease) : Bool :=
  !m.closed && (m.leases.get? lease.runId == some lease) &&
    match m.grant with
    | some g => g.grantId == lease.grantId
    | none => false

def closeRun (runId : String) (m : HostAccessManager) : HostAccessManager :=
  match m.leases.get? runId with
  | none => m
  | some lease => { m with
      leases := m.leases.erase runId
      cancellations := m.cancellations ++ [lease] }

def setFile (file : File) (m : HostAccessManager) : HostAccessManager := { m with file := file }

def setGrant (grant : Option Grant) (m : HostAccessManager) : HostAccessManager :=
  { m with grant := grant }

def setPairing (pairing : HostPairing) (m : HostAccessManager) : HostAccessManager :=
  { m with pairing := some pairing }

def setLease (lease : HostLease) (m : HostAccessManager) : HostAccessManager :=
  { m with leases := m.leases.set lease.runId lease }

def setClosed (m : HostAccessManager) : HostAccessManager := { m with closed := true }

/-- A change of the directory that can fail or end the process before or after. -/
def onDisk (disk : Disk) (change : HostAccessManager → HostAccessManager) :
    Action HostAccessManager Fault Unit :=
  match disk with
  | .done => modify change
  | .failed effective => do
      if effective then modify change
      raise .osError
  | .died effective => do
      if effective then modify change
      raise .died

def saveLocked (disk : Disk) : Action HostAccessManager Fault Unit :=
  onDisk disk fun m => m.setFile (.saved m.pairing m.grant)

def closeRuns : Action HostAccessManager Fault Unit := do
  let runs ← read fun m => m.leases.keys
  forEach runs fun runId => modify (closeRun runId)

def revokeLocked (w : Weather) : Action HostAccessManager Fault Unit := do
  modify (setGrant none)
  closeRuns
  attempt (saveLocked w.revoking) fun
    | .osError => attempt (onDisk w.unlinking (setFile .missing)) fun
        | .osError => raise unsaved
        | e => raise e
    | e => raise e

/-- `_worker_status` for a reply, if there was one: the revision and the session. -/
def workerStatus (pairing : HostPairing) (reply : Option StatusReply) :
    Except Fault (String × String) :=
  match reply with
  | none => .error (.hostAccess "Host Access is unavailable or rejected the request.")
  | some r =>
    if r.ready && r.companionId == pairing.companionId && isHex 32 r.sessionId then
      .ok (r.scopeRevision, r.sessionId)
    else .error (.hostAccess "The Host Access environment could not be verified.")

def pair (pairing : HostPairing) (reply : Option StatusReply) (w : Weather) :
    Action HostAccessManager Fault Unit := do
  let _ ← lift (workerStatus pairing reply)
  let current ← read fun m => m.pairing
  if current ≠ some pairing then
    revokeLocked w
    modify (setPairing pairing)
    saveLocked w.saving

/-- The entries of a status that its callers read. -/
structure Status where
  state : String
  enabled : Bool
  grantId : Option String

def Status.unavailable : Status := ⟨"unavailable", false, none⟩

def status (pairing : HostPairing) (reply : Option StatusReply) (w : Weather) :
    Action HostAccessManager Fault Status := do
  let m ← read id
  match workerStatus pairing reply with
  | .error _ =>
    if m.pairing = some pairing ∧ (m.grant.isSome || m.leases.size ≠ 0) then revokeLocked w
    pure .unavailable
  | .ok (scope, _) =>
    if m.pairing ≠ some pairing then pure .unavailable
    else
      if m.grant.any fun g => g.scopeRevision ≠ scope then revokeLocked w
      let grant ← read fun m => m.grant
      pure ⟨"ready", grant.isSome, grant.map Grant.grantId⟩

/-- `enable` refuses before it revokes anything. -/
def refuses (m : HostAccessManager) (pairing : HostPairing) (scopeRevision : String)
    (reply : Option StatusReply) : Bool :=
  match workerStatus pairing reply with
  | .error _ => true
  | .ok (scope, _) => m.closed || m.pairing ≠ some pairing || scope ≠ scopeRevision

/-- The save of a new consent, which is withdrawn from the memory if it fails. -/
def saveConsent (disk : Disk) : Action HostAccessManager Fault Unit :=
  attempt (saveLocked disk) fun
    | .died => raise .died
    | _ => do
        modify (setGrant none)
        raise (.hostAccess "Host access consent could not be saved.")

/-- `enable` once the worker has answered, up to its own `status`. -/
def enable (pairing : HostPairing) (scopeRevision : String) (reply : Option StatusReply)
    (drawn : String) (w : Weather) : Action HostAccessManager Fault Unit := do
  let (scope, _) ← lift (workerStatus pairing reply)
  let m ← read id
  require (!(m.closed || m.pairing ≠ some pairing || scope ≠ scopeRevision))
    (.hostAccess "The host access warning changed. Read it again.")
  revokeLocked w
  modify (setGrant (some ⟨drawn, scopeRevision⟩))
  saveConsent w.saving

/-- The checks of `authorise` under the lock. -/
def grants (m : HostAccessManager) (pairing : HostPairing) (grantId scope : String) : Bool :=
  !m.closed && m.pairing = some pairing &&
    m.grant.any fun g => g.grantId = grantId && g.scopeRevision = scope

/-- `authorise` once the worker has answered its second status. -/
def authorise (pairing : HostPairing) (runId grantId : String) (reply : Option StatusReply)
    (object : Nat) : Action HostAccessManager Fault HostLease := do
  let (scope, session) ← lift (workerStatus pairing reply)
  let m ← read id
  require (m.grants pairing grantId scope)
    (.hostAccess "Host access has been revoked or changed.")
  let lease : HostLease := ⟨runId, grantId, scope, session, pairing, object⟩
  modify (setLease lease)
  pure lease

def revoke (w : Weather) : Action HostAccessManager Fault Unit := revokeLocked w

def close : Action HostAccessManager Fault Unit := do
  modify setClosed
  closeRuns

/-- `invoke` up to its request. -/
def invoke (lease : HostLease) (operation : HostCommand) (drawn : String) (now : Int) :
    Action HostAccessManager Fault HostInvocation := do
  let m ← read id
  require (m.active lease) (.hostAccess "Host access has been revoked.")
  pure {
    runId := lease.runId
    requestId := drawn
    scopeRevision := lease.scopeRevision
    workerSession := lease.workerSession
    expiresAt := now + 15000
    operation := operation }

end HostAccessManager

/-! ## Calls in progress -/

/-- What a `status` was called for. -/
inductive Purpose
  | plain
  /-- The status that `enable` returns. -/
  | enabled (grantId : String)
  /-- `validate_selection` inside `authorise`. -/
  | authorise (runId : String) (grantId : Option String)

inductive Call
  /-- Before `status` reads the pairing. -/
  | entering (purpose : Purpose)
  /-- `status` waits for the worker. -/
  | status (pairing : HostPairing) (purpose : Purpose)
  /-- `enable` waits for the worker. -/
  | enable (pairing : HostPairing) (scopeRevision : String)
  /-- `authorise` has validated the selection. -/
  | selected (runId grantId : String)
  /-- `authorise` waits for the worker. -/
  | authorise (pairing : HostPairing) (runId grantId : String)

inductive Event
  /-- `enable` saved a consent. -/
  | enabled (grantId : String)
  | enableReturned (grantId : String)
  | enableRaised (e : Fault)
  | revoked
  | revokeRaised (e : Fault)
  /-- `authorise` returned a lease under the grant it saw. -/
  | authorised (lease : HostLease) (grant : Option Grant)
  | restarted (grant : Option Grant)
deriving DecidableEq

structure World where
  manager : HostAccessManager
  running : Bool
  calls : Dict Nat Call
  /-- Posted to the worker; a request can arrive late, repeatedly or never. -/
  posts : List HostInvocation
  worker : HostWorker
  drawn : List String
  objects : Nat
  trace : List Event

inductive Step
  | pair (pairing : HostPairing) (reply : Option StatusReply) (w : Weather)
  | callStatus (c : Nat)
  | callEnable (c : Nat) (scopeRevision : String) (acknowledged : Bool)
  | callAuthorise (c : Nat) (runId : String) (grantId : Option String)
  | proceed (c : Nat)
  | answer (c : Nat) (reply : Option StatusReply) (drawn : String) (w : Weather)
  | invoke (lease : HostLease) (operation : HostCommand) (drawn : String) (now : Int)
  | closeRun (runId : String)
  | revoke (w : Weather)
  | close
  | restart (opened : Bool)
  | deliver (i : Nat) (now now' : Int) (spawned : Bool)
  | cancel (i : Nat)
  | finish (requestId : String)
  | closeWorker

namespace World

def initial (file : File) (sessionId scopeRevision : String) : World where
  manager := .load file true []
  running := true
  calls := Dict.empty
  posts := []
  worker := .initial sessionId scopeRevision
  drawn := match file.load.2 with
    | some g => [g.grantId]
    | none => []
  objects := 0
  trace := []

/-- The process ends: its memory and its calls are gone, the file and the requests stay. -/
def dies (w : World) (file : File) : World :=
  { w with
    manager := .load file false w.manager.cancellations
    running := false
    calls := Dict.empty }

def locked {α : Type} (w : World) (block : Action HostAccessManager Fault α)
    (ok : α → World → World) (raised : Fault → World → World) : World :=
  match block w.manager with
  | (.ok a, m) => ok a { w with manager := m }
  | (.error .died, m) => { w with manager := m }.dies m.file
  | (.error e, m) => raised e { w with manager := m }

def record (e : Event) (w : World) : World := { w with trace := e :: w.trace }

def setCall (c : Nat) (call : Call) (w : World) : World := { w with calls := w.calls.set c call }

def endCall (c : Nat) (w : World) : World := { w with calls := w.calls.erase c }

def raiseEnable (c : Nat) (e : Fault) (w : World) : World := (w.endCall c).record (.enableRaised e)

/-- A `status` returns to the call it was made for. -/
def returnStatus (c : Nat) (purpose : Purpose) (s : HostAccessManager.Status) (w : World) : World :=
  match purpose with
  | .plain => w.endCall c
  | .enabled grantId => (w.endCall c).record (.enableReturned grantId)
  | .authorise runId grantId =>
    -- `validate_selection`
    if !s.enabled || s.grantId ≠ grantId then w.endCall c
    else match grantId with
      | some g => w.setCall c (.selected runId g)
      | none => w.endCall c

def raiseStatus (c : Nat) (purpose : Purpose) (e : Fault) (w : World) : World :=
  match purpose with
  | .plain | .authorise _ _ => w.endCall c
  | .enabled _ => w.raiseEnable c e

def proceed (c : Nat) (w : World) : Option World :=
  match w.calls.get? c with
  | some (.entering purpose) => some <|
      match w.manager.pairing with
      | none => w.returnStatus c purpose ⟨"not_paired", false, none⟩
      | some pairing =>
        if w.manager.closed then w.returnStatus c purpose ⟨"not_paired", false, none⟩
        else w.setCall c (.status pairing purpose)
  | some (.selected runId grantId) => some <|
      match w.manager.pairing with
      | none => w.endCall c
      | some pairing => w.setCall c (.authorise pairing runId grantId)
  | _ => none

def answer (c : Nat) (reply : Option StatusReply) (drawn : String) (o : Weather) (w : World) :
    Option World :=
  match w.calls.get? c with
  | some (.status pairing purpose) => some <|
      w.locked (HostAccessManager.status pairing reply o)
        (fun s t => t.returnStatus c purpose s) fun e t => t.raiseStatus c purpose e
  | some (.enable pairing scope) =>
    if w.drawn.contains drawn then none
    else some <| { w with drawn := drawn :: w.drawn }.locked
      (HostAccessManager.enable pairing scope reply drawn o)
      (fun _ t => (t.setCall c (.entering (.enabled drawn))).record (.enabled drawn))
      fun e t => t.raiseEnable c e
  | some (.authorise pairing runId grantId) => some <|
      { w with objects := w.objects + 1 }.locked
        (HostAccessManager.authorise pairing runId grantId reply w.objects)
        (fun lease t => (t.endCall c).record (.authorised lease t.manager.grant))
        fun _ t => t.endCall c
  | _ => none

def callEnable (c : Nat) (scopeRevision : String) (acknowledged : Bool) (w : World) : World :=
  if !acknowledged then
    w.record (.enableRaised (.hostAccess "Read and acknowledge the host access warning first."))
  else match w.manager.pairing with
    | none => w.record
        (.enableRaised (.hostAccess "Install and start the optional Host Access App first."))
    | some pairing => w.setCall c (.enable pairing scopeRevision)

def nextRunning (w : World) : Step → Option World
  | .pair pairing reply o => some <|
      w.locked (HostAccessManager.pair pairing reply o) (fun _ t => t) fun _ t => t
  | .callStatus c => if w.calls.contains c then none else some (w.setCall c (.entering .plain))
  | .callEnable c scope acknowledged =>
    if w.calls.contains c then none else some (w.callEnable c scope acknowledged)
  | .callAuthorise c runId grantId =>
    if w.calls.contains c then none
    else some (w.setCall c (.entering (.authorise runId grantId)))
  | .proceed c => w.proceed c
  | .answer c reply drawn o => w.answer c reply drawn o
  | .invoke lease operation drawn now => some <|
      w.locked (HostAccessManager.invoke lease operation drawn now)
        (fun invocation t => { t with posts := t.posts ++ [invocation] }) fun _ t => t
  | .closeRun runId => some { w with manager := w.manager.closeRun runId }
  | .revoke o => some <|
      w.locked (HostAccessManager.revoke o) (fun _ t => t.record .revoked)
        fun e t => t.record (.revokeRaised e)
  | .close => some <| w.locked HostAccessManager.close (fun _ t => t) fun _ t => t
  | _ => none

/-- The steps of the worker, and those that end or start the process of the manager. -/
def nextOutside (w : World) : Step → Option World
  | .restart opened =>
    let m := HostAccessManager.load w.manager.file opened w.manager.cancellations
    some ({ w.dies w.manager.file with manager := m, running := true }.record
      (.restarted m.grant))
  | .deliver i now now' spawned =>
    match w.posts[i]? with
    | none => none
    | some invocation =>
      some { w with worker := (HostWorker.execute invocation now now' spawned w.worker).2 }
  | .cancel i =>
    match w.manager.cancellations[i]? with
    | none => none
    | some lease =>
      some { w with worker := w.worker.cancelRoute lease.runId lease.workerSession }
  | .finish requestId => some { w with worker := w.worker.finish requestId }
  | .closeWorker => some { w with worker := w.worker.close }
  | _ => none

def next (w : World) (s : Step) : Option World :=
  match s with
  | .restart _ | .deliver _ _ _ _ | .cancel _ | .finish _ | .closeWorker => w.nextOutside s
  | _ => if w.running then w.nextRunning s else none

end World

end CodexBridge.Host
