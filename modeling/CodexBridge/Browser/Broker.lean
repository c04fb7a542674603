import CodexBridge.Library.Dict

/-! # The browser broker

Ephemeral browser sessions over one worker process. Every block under the lock of the broker
or of the worker client is one step, and so is every other use of the process: starting it,
writing a request to it, reading its reply, terminating it.
-/

namespace CodexBridge.Browser

/-! ## Actions and replies -/

inductive Tool
  | openPage
  | navigate
  | inspect
  | click
  | typeText
  | select
  | wait
  | screenshot
  | pdf
  | close
deriving DecidableEq

inductive ErrorCode
  | browserUnavailable
  | navigationBlocked
  | navigationFailed
  | pageTimeout
  | selectorNotFound
  | sessionClosed
  | sessionExpired
  | workerFailed
deriving DecidableEq

inductive Reply
  | ok (artifact : Bool)
  | error (code : ErrorCode)
deriving DecidableEq

structure Response where
  sessionId : String
  reply : Reply

structure Request where
  sessionId : String
  tool : Tool

def MAX_ACTIONS : Nat := 100

/-- In milliseconds, as every time here. -/
def MAX_SESSION_SECONDS : Int := 300000

structure Page where
  sessionId : String
  actions : Nat
  createdAt : Int

/-- How Chromium takes an action. -/
inductive Outcome
  /-- It returns a response, or says that a selector or text was not found in time. -/
  | returned (refused : Option ErrorCode)
  /-- `NavigationBlocked`. -/
  | blocked
  /-- `CdpError`. -/
  | protocol
  /-- `WorkerError`. -/
  | failed
  /-- An exception that only the loop around `handle` catches. -/
  | uncaught

/-- `BrowserWorker.handle` and the loop around it: the response and the page left. -/
def handle (r : Request) (o : Outcome) (now : Int) (page : Option Page) : Response × Option Page :=
  let answer (reply : Reply) : Response := ⟨r.sessionId, reply⟩
  if r.tool = .openPage then
    match page with
    | some _ => (answer (.error .browserUnavailable), page)
    | none =>
      match o with
      | .returned _ => (answer (.ok false), some ⟨r.sessionId, 1, now⟩)
      | .blocked => (answer (.error .navigationBlocked), none)
      | .protocol | .failed => (answer (.error .navigationFailed), none)
      | .uncaught => (answer (.error .workerFailed), none)
  else
    match page with
    | none => (answer (.error .sessionClosed), none)
    | some p =>
      if p.sessionId ≠ r.sessionId then (answer (.error .sessionClosed), page)
      else if r.tool = .close then (answer (.ok false), none)
      else if p.actions ≥ MAX_ACTIONS ∨ now - p.createdAt > MAX_SESSION_SECONDS then
        (answer (.error .workerFailed), none)
      else
        let acted : Option Page := some { p with actions := p.actions + 1 }
        match o with
        | .returned none => (answer (.ok (r.tool = .screenshot || r.tool = .pdf)), acted)
        | .returned (some code) => (answer (.error code), acted)
        | .blocked => (answer (.error .navigationBlocked), none)
        | .protocol => (answer (.error .navigationFailed), acted)
        | .failed | .uncaught => (answer (.error .workerFailed), none)

/-- A worker process with its page and the lines in its stdout pipe. -/
structure Process where
  alive : Bool
  page : Option Page
  replies : List Response
  startedFor : String

structure Context where
  runId : String
  threadId : String
  codexThreadId : String
  turnId : String
  generation : Nat
deriving DecidableEq, Inhabited

/-- `_Session`; its id is the key it is registered under. -/
structure Session where
  owner : Context
  createdAt : Int
  lastActionAt : Int
  actionCount : Nat
  busy : Bool

structure Limits where
  sessionTtl : Int
  maxSessions : Nat
  maxActionsPerSession : Nat

inductive After
  /-- `invoke` looks for expired sessions again. -/
  | loop
  | answer (success : Bool) (text : String)
  | nothing
deriving DecidableEq

inductive Phase
  /-- Before the lock region of `_stop_process`. -/
  | stopping
  | terminating (process : Option Nat)
  /-- Before the session leaves `_tearing_down`. -/
  | discarding
deriving DecidableEq

/-- Where a call stands between two steps. -/
inductive Stage
  | expiring
  | admitting
  | closing (phase : Phase) (session : String) (rest : List String) (after : After)
  /-- `execute` has not reached the client's lock. -/
  | executing (session : String)
  /-- `_request` holds a process and has not written to it. -/
  | sending (session : String) (process : Nat)
  | reading (session : String) (process : Nat)
  /-- `_request` failed and is about to stop its process. -/
  | stopping (session : String) (process : Nat)
  | terminating (session : String) (process : Option Nat)
  | raised (session : String) (text : String)
  | answered (session : String) (reply : Reply)
  | publishing (session : String) (artifact : Bool)
  | finishing (session : String)
deriving DecidableEq

/-- A call in progress; one of `close_owner` or `close` has sessions to close only. -/
structure Call where
  owner : Context
  tool : Tool
  target : Option String
  stage : Stage

inductive Event
  | started (session : String) (owner : Context) (registered : Option Context)
  | stopped (by_ : String) (registered : List String)
  | crossed (session : String) (other : String)
  /-- `invoke` returned the result of an action. -/
  | returned (session : String) (owner : Context) (registered : Option Context)
deriving DecidableEq

structure World where
  limits : Limits
  sessions : Dict String Session
  tearingDown : List String
  closed : Bool
  /-- The client's `_process`. -/
  process : Option Nat
  processes : Dict Nat Process
  spawned : Nat
  calls : Dict Nat Call
  drawn : List String
  trace : List Event

inductive Step
  | invoke (c : Nat) (owner : Context) (tool : Tool) (target : Option String)
  | closeOwner (c : Nat) (owner : Context)
  | close (c : Nat)
  | expire (c : Nat) (now : Int)
  | accept (c : Nat) (now : Int) (drawn : String)
  /-- The lock region of `_stop_process`. -/
  | stop (c : Nat)
  | terminate (c : Nat)
  | discard (c : Nat)
  /-- The lock region of `_request`; `proven` and `started` say how it can fail. -/
  | acquire (c : Nat) (proven started : Bool)
  | write (c : Nat) (o : Outcome) (now : Int)
  | readLines (c : Nat) (lines : Nat)
  /-- A pipe error, the end of the file, the timeout or an invalid line. -/
  | fail (c : Nat)
  | takeIfCurrent (c : Nat)
  | settle (c : Nat)
  | publish (c : Nat) (succeeded : Bool)
  | finish (c : Nat)
  | crash (p : Nat)

def Session.expired (s : Session) (ttl now : Int) : Bool := now - s.createdAt > ttl

namespace World

def initial (limits : Limits) : World where
  limits := limits
  sessions := Dict.empty
  tearingDown := []
  closed := false
  process := none
  processes := Dict.empty
  spawned := 0
  calls := Dict.empty
  drawn := []
  trace := []

def setStage (w : World) (c : Nat) (call : Call) (stage : Stage) : World :=
  { w with calls := w.calls.set c { call with stage := stage } }

def endCall (w : World) (c : Nat) : World := { w with calls := w.calls.erase c }

def record (w : World) (e : Event) : World := { w with trace := e :: w.trace }

/-- `_take_session_locked` for a list of sessions that are registered. -/
def takeSessions (w : World) (ids : List String) : World :=
  { w with
    sessions := w.sessions.filter fun id _ => !ids.contains id
    tearingDown := w.tearingDown ++ ids }

def sessionsWith (w : World) (p : Session → Bool) : List String :=
  (w.sessions.filter fun _ s => p s).keys

def setSession (w : World) (id : String) (s : Session) : World :=
  { w with sessions := w.sessions.set id s }

def setProcess (w : World) (p : Nat) (q : Process) : World :=
  { w with processes := w.processes.set p q }

def closeSessions (w : World) (c : Nat) (call : Call) (ids : List String) (after : After) : World :=
  match ids with
  | [] =>
    match after with
    | .loop => w.setStage c call .expiring
    | .answer _ _ | .nothing => w.endCall c
  | id :: rest => w.setStage c call (.closing .stopping id rest after)

def ownerOf (w : World) (id : String) : Option Context := (w.sessions.get? id).map Session.owner

def setBusy (w : World) (id : String) (busy : Bool) : World :=
  { w with sessions := w.sessions.update id fun s => { s with busy := busy } }

/-! ## The steps -/

/-- The lock region of `close_owner`, or of `close`: it takes the sessions that pass the
test. -/
def takeAll (w : World) (c : Nat) (call : Call) (p : Session → Bool) : World :=
  let ids := w.sessionsWith p
  (w.takeSessions ids).closeSessions c call ids .nothing

def expire (w : World) (c : Nat) (call : Call) (now : Int) : World :=
  if w.closed then w.endCall c
  else
    let ids := w.sessionsWith fun s => s.expired w.limits.sessionTtl now
    if ids = [] then w.setStage c call .admitting
    else (w.takeSessions ids).closeSessions c call ids .loop

/-- The lock region in which `invoke` reserves a session. -/
def accept (w : World) (c : Nat) (call : Call) (now : Int) (drawn : String) : World :=
  if w.closed then w.endCall c
  else if call.tool = .openPage then
    if w.tearingDown ≠ [] then w.endCall c
    else if w.sessions.size ≥ w.limits.maxSessions then w.endCall c
    else
      ({ w with drawn := drawn :: w.drawn }.setSession drawn
        ⟨call.owner, now, now, 1, true⟩).setStage c call (.executing drawn)
  else
    match call.target with
    | none => w.endCall c
    | some id =>
      match w.sessions.get? id with
      | none => w.endCall c
      | some s =>
        if s.owner ≠ call.owner || s.busy then w.endCall c
        else if s.expired w.limits.sessionTtl now then
          (w.takeSessions [id]).closeSessions c call [id]
            (.answer false "Browser session unavailable.")
        else if s.actionCount ≥ w.limits.maxActionsPerSession then
          (w.takeSessions [id]).closeSessions c call [id]
            (.answer false "Browser session limit reached.")
        else if call.tool = .close then
          (w.takeSessions [id]).closeSessions c call [id]
            (.answer true "Browser session closed.")
        else
          (w.setSession id { s with
            busy := true
            actionCount := s.actionCount + 1
            lastActionAt := now }).setStage c call (.executing id)

def isAlive (w : World) (p : Nat) : Bool := (w.processes.get? p).any Process.alive

/-- `process, self._process = self._process, None`. -/
def dropProcess (w : World) (by_ : String) : World :=
  let dropped := { w with process := none }
  if w.process.any w.isAlive then dropped.record (.stopped by_ w.sessions.keys) else dropped

def stop (w : World) (c : Nat) (call : Call) : Option World :=
  match call.stage with
  | .closing .stopping id rest after =>
    some ((w.dropProcess id).setStage c call (.closing (.terminating w.process) id rest after))
  | .stopping id p =>
    -- `_stop_process(expected)`
    if w.process = some p then
      some ((w.dropProcess id).setStage c call (.terminating id (some p)))
    else some (w.setStage c call (.terminating id none))
  | _ => none

def kill (w : World) (p : Option Nat) : World :=
  match p with
  | none => w
  | some p => { w with
      processes := w.processes.update p fun q => { q with alive := false, page := none } }

def terminate (w : World) (c : Nat) (call : Call) : Option World :=
  match call.stage with
  | .closing (.terminating p) id rest after =>
    some ((w.kill p).setStage c call (.closing .discarding id rest after))
  | .terminating id p =>
    some ((w.kill p).setStage c call (.raised id "Browser worker failed safely."))
  | _ => none

def discard (w : World) (c : Nat) (call : Call) : Option World :=
  match call.stage with
  | .closing .discarding id rest after =>
    some ({ w with tearingDown := w.tearingDown.filter (· ≠ id) }.closeSessions c call rest after)
  | _ => none

def spawn (w : World) (id : String) : World :=
  { w with
    process := some w.spawned
    processes := w.processes.set w.spawned ⟨true, none, [], id⟩
    spawned := w.spawned + 1 }

def acquire (w : World) (c : Nat) (call : Call) (proven started : Bool) : Option World :=
  match call.stage with
  | .executing id => some <|
      match proven, w.process.filter w.isAlive, started with
      | false, _, _ => w.setStage c call (.raised id "Browser worker failed safely.")
      | true, some p, _ => w.setStage c call (.sending id p)
      | true, none, false => w.setStage c call (.raised id "Browser worker failed safely.")
      | true, none, true => (w.spawn id).setStage c call (.sending id w.spawned)
  | _ => none

/-- The request goes down the pipe, and the process takes it up if it is alive. -/
def write (w : World) (c : Nat) (call : Call) (o : Outcome) (now : Int) : Option World :=
  match call.stage with
  | .sending id p =>
    match w.processes.get? p with
    | none => none
    | some q =>
      if !q.alive then some (w.setStage c call (.stopping id p))
      else
        let (response, page) := handle ⟨id, call.tool⟩ o now q.page
        let told := w.setProcess p { q with page := page, replies := q.replies ++ [response] }
        some ((told.setStage c call (.reading id p)).record
          (.started id call.owner (w.ownerOf id)))
  | _ => none

def readLines (w : World) (c : Nat) (call : Call) (lines : Nat) : Option World :=
  match call.stage with
  | .reading id p =>
    match w.processes.get? p with
    | none => none
    | some q =>
      let taken := q.replies.take lines
      let crossing := taken.filter fun r : Response => r.sessionId ≠ id
      let emptied := w.setProcess p { q with replies := q.replies.drop lines }
      let left := { emptied with
        trace := crossing.map (fun r : Response => Event.crossed id r.sessionId) ++ w.trace }
      match taken with
      | [] => none
      | [r] =>
        if r.sessionId = id then some (left.setStage c call (.answered id r.reply))
        else some (left.setStage c call (.raised id "Browser worker failed safely."))
      | _ => some (left.setStage c call (.stopping id p))
  | _ => none

def fail (w : World) (c : Nat) (call : Call) : Option World :=
  match call.stage with
  | .reading id p | .sending id p => some (w.setStage c call (.stopping id p))
  | _ => none

def takeIfCurrent (w : World) (c : Nat) (call : Call) : Option World :=
  match call.stage with
  | .raised id text =>
    if w.sessions.contains id then
      some ((w.takeSessions [id]).closeSessions c call [id] (.answer false text))
    else some (w.endCall c)
  | _ => none

def message : ErrorCode → String
  | .browserUnavailable => "Browser worker unavailable."
  | .navigationBlocked => "Browser navigation blocked by policy."
  | .navigationFailed => "Browser navigation failed."
  | .pageTimeout => "Browser action timed out."
  | .selectorNotFound => "Browser element was not found."
  | .sessionClosed | .sessionExpired => "Browser session unavailable."
  | .workerFailed => "Browser worker failed safely."

def terminal (tool : Tool) (code : ErrorCode) : Bool :=
  tool = .openPage || code ∈ [ErrorCode.browserUnavailable, .navigationBlocked, .sessionClosed,
    .sessionExpired, .workerFailed]

/-- The lock region after a response. -/
def settle (w : World) (c : Nat) (call : Call) : Option World :=
  match call.stage with
  | .answered id reply =>
    if !w.sessions.contains id || w.closed then some (w.endCall c)
    else match reply with
      | .error code =>
        if terminal call.tool code then
          some ((w.takeSessions [id]).closeSessions c call [id] (.answer false (message code)))
        else some ((w.setBusy id false).endCall c)
      | .ok artifact => some (w.setStage c call (.publishing id artifact))
  | _ => none

def publish (w : World) (c : Nat) (call : Call) (succeeded : Bool) : Option World :=
  match call.stage with
  | .publishing id artifact =>
    if succeeded || !artifact then some (w.setStage c call (.finishing id))
    else some (w.setStage c call (.raised id "Browser artifact publication failed safely."))
  | _ => none

def finish (w : World) (c : Nat) (call : Call) : Option World :=
  match call.stage with
  | .finishing id =>
    if !w.sessions.contains id || w.closed then some (w.endCall c)
    else some (((w.setBusy id false).endCall c).record (.returned id call.owner (w.ownerOf id)))
  | _ => none

def within (w : World) (c : Nat) (f : Call → Option World) : Option World :=
  match w.calls.get? c with
  | none => none
  | some call => f call

def next (w : World) : Step → Option World
  | .invoke c owner tool target =>
    if w.calls.contains c then none
    else some (w.setStage c ⟨owner, tool, target, .expiring⟩ .expiring)
  | .closeOwner c owner =>
    if w.calls.contains c then none
    else some (w.takeAll c ⟨owner, .close, none, .expiring⟩ fun s => s.owner = owner)
  | .close c =>
    if w.calls.contains c || w.closed then none
    else some ({ w with closed := true }.takeAll c ⟨default, .close, none, .expiring⟩ fun _ => true)
  | .expire c now => w.within c fun call =>
    if call.stage = .expiring then some (w.expire c call now) else none
  | .accept c now drawn =>
    if w.drawn.contains drawn then none
    else w.within c fun call =>
      if call.stage = .admitting then some (w.accept c call now drawn) else none
  | .stop c => w.within c fun call => w.stop c call
  | .terminate c => w.within c fun call => w.terminate c call
  | .discard c => w.within c fun call => w.discard c call
  | .acquire c proven started => w.within c fun call => w.acquire c call proven started
  | .write c o now => w.within c fun call => w.write c call o now
  | .readLines c lines => w.within c fun call => w.readLines c call lines
  | .fail c => w.within c fun call => w.fail c call
  | .takeIfCurrent c => w.within c fun call => w.takeIfCurrent c call
  | .settle c => w.within c fun call => w.settle c call
  | .publish c succeeded => w.within c fun call => w.publish c call succeeded
  | .finish c => w.within c fun call => w.finish c call
  | .crash p => some (w.kill (some p))

end World

end CodexBridge.Browser
