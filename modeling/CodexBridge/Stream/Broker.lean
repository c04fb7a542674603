import CodexBridge.Library.Json
import CodexBridge.Library.Runs
import Mathlib.Algebra.GroupWithZero.Nat

/-! # The event broker of the Integration

One task reads the Bridge's event stream and gives each event to the subscriptions that want it.
A subscription has a bounded queue of envelopes; where an event cannot be given to it, the queue
is replaced by one envelope after which the subscription is closed.

A step is what happens between two points at which another coroutine may run.
-/

namespace CodexBridge.Stream

/-! ## Events, once validated -/

def cursorMax : Nat := 2 ^ 63 - 1

def maxBatchEvents : Nat := 256

inductive EventScope
  | auth
  | runtime
  | thread
deriving DecidableEq

structure EventRecord where
  cursor : Nat
  eventId : String
  scope : EventScope
  threadId : Option String
  eventType : String
  payload : Json
  timestamp : String
  estimatedBytes : Nat
deriving DecidableEq

/-- `EventBatch`, with what `from_payload` checks of it. -/
structure EventBatch where
  events : List EventRecord
  nextCursor : Nat
  minimumCursor : Nat
  hasMore : Bool
  heartbeat : Bool
  length_le : events.length ≤ maxBatchEvents
  nextCursor_le : nextCursor ≤ cursorMax
  minimum_le : minimumCursor ≤ nextCursor
  increasing : events.Pairwise fun a b => a.cursor < b.cursor
  bounds : ∀ e ∈ events, minimumCursor < e.cursor ∧ e.cursor ≤ nextCursor
  quiet : heartbeat = true → events = [] ∧ hasMore = false

/-! ## The broker -/

/-- The limits of `EventBroker.__init__`. -/
structure Limits where
  queueSize : Nat
  historySize : Nat
  queueBytes : Nat
  historyBytes : Nat

/-- The limits as `__init__` keeps them. -/
def Limits.clamp (l : Limits) : Limits where
  queueSize := max 1 (min l.queueSize maxBatchEvents)
  historySize := max 1 (min l.historySize 1024)
  queueBytes := max 1024 (min l.queueBytes (64 * 1024 * 1024))
  historyBytes := max 1024 (min l.historyBytes (64 * 1024 * 1024))

def maxSubscribers : Nat := 32

inductive StreamState
  | idle
  | connecting
  | connected
  | reconnecting
  | authenticationFailed
  | failed
  | protocolError
  | upstreamError
  | stopped
deriving DecidableEq

/-- The states that `_set_status` publishes as a snapshot. -/
def StreamState.isFailure : StreamState → Bool
  | .authenticationFailed | .failed | .protocolError | .upstreamError => true
  | _ => false

inductive StreamPhase
  | idle
  | replay
  | wait
  | backoff
  | stopped
deriving DecidableEq

structure Status where
  state : StreamState
  phase : StreamPhase
  retryCount : Nat
deriving DecidableEq

inductive SnapshotScope
  | global
  | one (scope : EventScope)
deriving DecidableEq

inductive SnapshotReason
  | cursorGap
  | subscriberOverflow
  | journalCompacted
deriving DecidableEq

inductive Envelope
  | event (e : EventRecord)
  | snapshot (cursor : Nat) (reason : SnapshotReason) (scope : SnapshotScope)
      (threadId : Option String)
  | heartbeat (cursor : Nat)
  | status (status : Status) (cursor : Nat)
deriving DecidableEq

namespace Envelope

def event? : Envelope → Option EventRecord
  | .event e => some e
  | _ => none

def isClosing : Envelope → Bool
  | .snapshot .. => true
  | .status s _ => s.state.isFailure
  | _ => false

def size : Envelope → Nat
  | .event e => e.estimatedBytes + 64
  | _ => 512

end Envelope

/-! ## Subscriptions -/

inductive Entry
  | item (envelope : Envelope) (size : Nat)
  | close

def Entry.envelope? : Entry → Option Envelope
  | .item envelope _ => some envelope
  | .close => none

def Entry.bytes : Entry → Nat
  | .item _ size => size
  | .close => 0

/-- `EventSubscription`. `listed` says that the broker has it; what was returned and that `close`
was called is history. -/
structure Subscription where
  after : Nat
  scopes : Option (List EventScope)
  threadIds : Option (List String)
  maximumBytes : Nat
  queueSize : Nat
  queue : List Entry
  queuedBytes : Nat
  closeAfterDelivery : Bool
  closed : Bool
  listed : Bool
  /-- Calls of `get` that wait for an entry. -/
  waiting : Nat
  returned : List Envelope
  wasClosed : Bool

namespace Subscription

/-- `EventSubscription.__init__`, once `subscribe` has listed it. -/
def ofFilter (limits : Limits) (after : Nat) (scopes : Option (List EventScope))
    (threadIds : Option (List String)) : Subscription where
  after := after
  scopes := scopes
  threadIds := threadIds
  maximumBytes := limits.queueBytes
  queueSize := limits.queueSize
  queue := []
  queuedBytes := 0
  closeAfterDelivery := false
  closed := false
  listed := true
  waiting := 0
  returned := []
  wasClosed := false

/-- `matches`. -/
def wants (s : Subscription) (e : EventRecord) : Bool :=
  decide (s.after < e.cursor) &&
    (s.scopes.all fun scopes => scopes.contains e.scope) &&
      (s.threadIds.all fun ids =>
        decide (e.scope ≠ .thread) || e.threadId.any fun id => ids.contains id)

/-- `_put`; there is no result where it returns `False`. -/
def put? (s : Subscription) (envelope : Envelope) : Option Subscription :=
  if s.closed ∨ s.closeAfterDelivery ∨ s.queueSize ≤ s.queue.length ∨
      s.maximumBytes < s.queuedBytes + envelope.size then none
  else some { s with
    queue := s.queue ++ [.item envelope envelope.size]
    queuedBytes := s.queuedBytes + envelope.size }

def replaceThenClose (s : Subscription) (envelope : Envelope) : Subscription :=
  if s.closed ∨ s.closeAfterDelivery then s
  else { s with
    listed := false
    queue := [.item envelope envelope.size]
    queuedBytes := envelope.size
    closeAfterDelivery := true }

def close (s : Subscription) : Subscription :=
  if s.closed then s
  else { s with
    closed := true
    closeAfterDelivery := false
    listed := false
    queue := [.close]
    queuedBytes := 0
    wasClosed := true }

/-- `get`, up to where it waits for an entry. -/
def get (s : Subscription) : Option Subscription :=
  if s.closed then none else some { s with waiting := s.waiting + 1 }

/-- `get`, from where it has an entry. -/
def wake (s : Subscription) : Option Subscription :=
  if s.waiting = 0 then none
  else
    match s.queue with
    | [] => none
    | .close :: rest =>
      some { s with waiting := s.waiting - 1, queue := rest, closed := true }
    | .item envelope size :: rest =>
      some { s with
        waiting := s.waiting - 1
        queue := rest
        queuedBytes := s.queuedBytes - size
        closeAfterDelivery := false
        closed := s.closed || s.closeAfterDelivery
        returned := s.returned ++ [envelope] }

/-- `_put`, or else the snapshot that says that the queue has no room. -/
def offer (s : Subscription) (envelope snapshot : Envelope) : Subscription :=
  (s.put? envelope).getD (s.replaceThenClose snapshot)

def pending (s : Subscription) : List Envelope := s.queue.filterMap Entry.envelope?

end Subscription

/-! ## The broker -/

/-- The part of a `ProblemRecord` that a recovery reads. -/
structure Problem where
  snapshotRequired : Bool
  snapshotCursor : Option Nat
  minimumCursor : Option Nat
  scope : Option EventScope
  threadId : Option String

/-- Where the task is. The events that the Bridge has are kept with a batch. -/
inductive Phase
  | unstarted
  | requesting
  | listening (surviving : List EventRecord) (batch : EventBatch) (rest : List EventRecord)
  | announcing (problem : Option Problem) (hasMore : Option Bool)
  | settling (batch : EventBatch)
  | stopped

def Phase.isAnnouncing : Phase → Bool
  | .announcing _ _ => true
  | _ => false

/-- `EventBroker`. What its cursor has passed is history: the events that the Bridge had then. -/
structure World where
  cursor : Nat
  history : List EventRecord
  historyBytes : Nat
  subs : List Subscription
  closed : Bool
  status : Status
  phase : Phase
  retry : Nat
  failures : Nat
  replay : Bool
  passed : List EventRecord

namespace World

def initial (cursor : Nat) : World where
  cursor := cursor
  history := []
  historyBytes := 0
  subs := []
  closed := false
  status := ⟨.idle, .idle, 0⟩
  phase := .unstarted
  retry := 0
  failures := 0
  replay := true
  passed := []

def advance (w : World) (surviving : List EventRecord) (cursor : Nat) : World :=
  { w with
    cursor := cursor
    passed := w.passed ++ surviving.filter fun e => w.cursor < e.cursor ∧ e.cursor ≤ cursor }

def clearHistory (w : World) : World := { w with history := [], historyBytes := 0 }

/-- The loop of `_append_history`: what stays of the history for an event of this size. -/
def trimmed (limits : Limits) (size : Nat) : List EventRecord → Nat → List EventRecord × Nat
  | [], bytes => ([], bytes)
  | old :: rest, bytes =>
    if limits.historySize ≤ (old :: rest).length ∨ limits.historyBytes < bytes + size then
      trimmed limits size rest (bytes - old.estimatedBytes)
    else (old :: rest, bytes)

def appendHistory (limits : Limits) (w : World) (e : EventRecord) : World :=
  if limits.historyBytes < e.estimatedBytes then w.clearHistory
  else
    let kept := trimmed limits e.estimatedBytes w.history w.historyBytes
    { w with history := kept.1 ++ [e], historyBytes := kept.2 + e.estimatedBytes }

/-- `_snapshot_envelope` for one subscription. -/
def snapshotFor (w : World) (s : Subscription) (reason : SnapshotReason) : Envelope :=
  match s.scopes.map List.dedup with
  | some [scope] =>
    .snapshot w.cursor reason (.one scope)
      (match scope, s.threadIds.map List.dedup with
      | .thread, some [id] => some id
      | _, _ => none)
  | _ => .snapshot w.cursor reason .global none

/-- `_snapshot_envelope` for all subscriptions. -/
def snapshotAll (w : World) (reason : SnapshotReason) (problem : Option Problem) : Envelope :=
  match problem.bind fun p => p.scope.map fun scope => (scope, p.threadId) with
  | some (scope, threadId) => .snapshot w.cursor reason (.one scope) threadId
  | none => .snapshot w.cursor reason .global none

def publishEvent (w : World) (e : EventRecord) : World :=
  { w with subs := w.subs.map fun s =>
      if s.listed ∧ ¬ s.closed ∧ s.wants e then
        s.offer (.event e) (w.snapshotFor s .subscriberOverflow)
      else s }

def publishEnvelope (w : World) (envelope : Envelope) : World :=
  { w with subs := w.subs.map fun s =>
      if s.listed ∧ ¬ s.closed then
        s.offer envelope (w.snapshotFor s .subscriberOverflow)
      else s }

def publishSnapshot (w : World) (envelope : Envelope) : World :=
  { w with subs := w.subs.map fun s =>
      if s.listed then s.replaceThenClose envelope else s }

def setStatus (w : World) (state : StreamState) (phase : StreamPhase) (retryCount : Nat)
    (notify : Bool) : World :=
  let status : Status := ⟨state, phase, min retryCount 16⟩
  let w' := { w with status := status }
  if notify ∧ status ≠ w.status then
    if state.isFailure then w'.publishSnapshot (.status status w.cursor)
    else w'.publishEnvelope (.status status w.cursor)
  else w'

def replayHistory (w : World) (s : Subscription) : Subscription :=
  if w.cursor ≤ s.after then s
  else
    match w.history.head?, w.history.getLast? with
    | some first, some last =>
      if last.cursor ≠ w.cursor ∨ s.after + 1 < first.cursor then
        s.replaceThenClose (w.snapshotFor s .cursorGap)
      else
        let wanted := w.history.filter s.wants
        if s.queueSize < wanted.length then
          s.replaceThenClose (w.snapshotFor s .subscriberOverflow)
        else
          wanted.foldl
            (fun s e =>
              if s.closeAfterDelivery then s
              else s.offer (.event e) (w.snapshotFor s .subscriberOverflow)) s
    | _, _ => s.replaceThenClose (w.snapshotFor s .cursorGap)

def requestPhase (w : World) : StreamPhase := if w.replay then .replay else .wait

/-- `_run` after `_consume` has returned. -/
def connected (w : World) (hasMore : Bool) : World :=
  let w' := w.setStatus .connected (if hasMore then .replay else .wait) 0
    (decide (0 < w.retry) || decide (0 < w.failures))
  { w' with retry := 0, failures := 0, replay := hasMore, phase := .requesting }

/-- `_run` after something that another attempt may get over. -/
def reconnect (w : World) : World :=
  let w' := w.setStatus .reconnecting w.requestPhase (w.retry + 1) true
  { w' with retry := w.retry + 1, replay := true, phase := .requesting }

def retryAfterFailure (w : World) (state : StreamState) : World :=
  let w' := w.setStatus state .backoff (w.failures + 1) true
  { w' with failures := w.failures + 1, replay := true, phase := .requesting }

def fresh (w : World) (b : EventBatch) : List EventRecord :=
  b.events.filter fun e => w.cursor < e.cursor

/-- `_consume` where it finds a gap, up to where it saves the cursor. -/
def gap (w : World) (surviving : List EventRecord) (cursor : Nat) (b : EventBatch) : World :=
  { (w.advance surviving cursor).clearHistory with phase := .announcing none (some b.hasMore) }

/-- The loop of `_consume`, up to where something is awaited. -/
def consumeNext (w : World) (surviving : List EventRecord) (b : EventBatch) :
    List EventRecord → World
  | [] => { w.advance surviving (max w.cursor b.nextCursor) with phase := .settling b }
  | e :: rest =>
    if w.cursor + 1 < e.cursor then w.gap surviving (max w.cursor b.nextCursor) b
    else { w with phase := .listening surviving b (e :: rest) }

/-- `_consume`, up to where something is awaited. -/
def consume (w : World) (surviving : List EventRecord) (b : EventBatch) : World :=
  let fresh := w.fresh b
  if w.cursor < b.minimumCursor ∨ (fresh.head?.any fun e => w.cursor + 1 < e.cursor) ∨
      (fresh = [] ∧ w.cursor < b.nextCursor) then
    w.gap surviving (max w.cursor (max b.minimumCursor b.nextCursor)) b
  else w.consumeNext surviving b fresh

def deliver (limits : Limits) (w : World) (surviving : List EventRecord) (e : EventRecord) :
    World :=
  ((w.advance surviving e.cursor).appendHistory limits e).publishEvent e

/-- Where `_recover_snapshot` begins to save the cursor. -/
def recover (w : World) (surviving : List EventRecord) (problem : Option Problem) : World :=
  match problem.bind fun p => if p.snapshotRequired then
      p.snapshotCursor.map fun cursor => (cursor, p.minimumCursor.getD 0) else none with
  | some (snapshot, minimum) =>
    { (w.advance surviving (max w.cursor (max snapshot minimum))).clearHistory with
      phase := .announcing problem none }
  | none =>
    let w' := w.retryAfterFailure .protocolError
    { w' with retry := 0 }

def announce (w : World) (problem : Option Problem) : Option Bool → World
  | some hasMore => (w.publishSnapshot (w.snapshotAll .cursorGap none)).connected hasMore
  | none =>
    { w.publishSnapshot (w.snapshotAll .journalCompacted problem) with
      replay := true, retry := 0, phase := .requesting }

end World

/-- What ends a request other than a batch or a 410. -/
inductive Trouble
  | auth
  | connection
  | upstream (retryable : Bool)
  | invalid
  | unexpected

inductive Action
  | start
  | load (surviving : List EventRecord) (saved : Nat)
  | batch (surviving : List EventRecord) (batch : EventBatch)
  | gone (surviving : List EventRecord) (problem : Option Problem)
  | trouble (trouble : Trouble)
  | listened
  | listenerFailed
  | saved
  | subscribe (after : Nat) (scopes : Option (List EventScope)) (threadIds : Option (List String))
  | get (k : Nat)
  | wake (k : Nat)
  | close (k : Nat)
  /-- `async_close` is called. -/
  | shutdown
  | cancelled
  | closeAll

/-- The filters that `subscribe` takes. -/
def filtersValid (scopes : Option (List EventScope)) (threadIds : Option (List String)) : Bool :=
  (scopes.all fun scopes => !scopes.isEmpty) &&
    (threadIds.all fun ids =>
      !ids.isEmpty && decide (ids.dedup.length ≤ 64) &&
        scopes.all fun scopes => scopes.contains .thread)

def World.sub (w : World) (k : Nat) (step : Subscription → Option Subscription) : Option World :=
  (w.subs[k]?).bind fun s => (step s).map fun s' => { w with subs := w.subs.set k s' }

def next (limits : Limits) (w : World) : Action → Option World
  | .start =>
    match w.phase with
    | .unstarted =>
      if w.closed then none
      else some { w.setStatus .connecting .replay 0 false with phase := .requesting }
    | _ => none
  | .load surviving saved =>
    match w.phase with
    | .unstarted => if w.cursor ≤ saved then some (w.advance surviving saved) else none
    | _ => none
  | .batch surviving b =>
    match w.phase with
    | .requesting => some (w.consume (surviving ++ b.events) b)
    | _ => none
  | .gone surviving problem =>
    match w.phase with
    | .requesting => some (w.recover surviving problem)
    | _ => none
  | .trouble trouble =>
    match w.phase with
    | .requesting =>
      match trouble with
      | .auth =>
        some { w.setStatus .authenticationFailed .stopped w.retry true with
          phase := .stopped }
      | .connection | .upstream true => some w.reconnect
      | .upstream false => some (w.retryAfterFailure .upstreamError)
      | .invalid => some (w.retryAfterFailure .protocolError)
      | .unexpected => some (w.retryAfterFailure .failed)
    | _ => none
  | .listened =>
    match w.phase with
    | .listening surviving b (e :: rest) =>
      some ((w.deliver limits surviving e).consumeNext surviving b rest)
    | _ => none
  | .listenerFailed =>
    match w.phase with
    | .listening _ _ _ => some w.reconnect
    | _ => none
  | .saved =>
    match w.phase with
    | .announcing problem hasMore => some (w.announce problem hasMore)
    | .settling b =>
      let w' := if b.heartbeat then w.publishEnvelope (.heartbeat w.cursor) else w
      some (w'.connected b.hasMore)
    | _ => none
  | .subscribe after scopes threadIds =>
    if w.closed ∨ cursorMax < after ∨ ¬ filtersValid scopes threadIds ∨
        maxSubscribers ≤ (w.subs.filter (·.listed)).length then none
    else some { w with
      subs := w.subs ++ [w.replayHistory (.ofFilter limits after scopes threadIds)] }
  | .get k => w.sub k Subscription.get
  | .wake k => w.sub k Subscription.wake
  | .close k => w.sub k fun s => some s.close
  | .shutdown => some { w with closed := true }
  | .cancelled => if w.closed then some { w with phase := .stopped } else none
  | .closeAll =>
    if w.closed then
      some { w with subs := w.subs.map fun s => if s.listed then s.close else s }
    else none

end CodexBridge.Stream
