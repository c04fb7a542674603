import CodexBridge.Library.Dict
import CodexBridge.Library.Effect
import CodexBridge.Library.Runs
import CodexBridge.Library.Json

/-! # The link to the app-server

Requests and their responses, server requests and their answers, and the failing of a
generation. Every section under the state lock is a step, and so is every read and write
of a pipe. What a thread still has to do after a section waits in a field of its own, to
be done at any later time.
-/

namespace CodexBridge.AppServer

open Effect

/-! ## Messages -/

inductive RequestId where
  | number (n : Int)
  | text (s : String)
  deriving DecidableEq

abbrev Key := Nat × RequestId

inductive ClientError where
  | unavailable | protocol | overloaded | timeout
  | remote (code : Int)
  deriving DecidableEq

inductive Body where
  | result (value : Json)
  | error (payload : Json)
  deriving DecidableEq

/-- What a future is set to, and how a request ends. -/
inductive Outcome where
  | result (value : Json)
  | raised (error : ClientError)
  deriving DecidableEq

/-- What the client was constructed with, and the contract's validators. -/
structure Settings where
  maxPendingRequests : Nat
  threadUnloadDelaySeconds : Option Int
  enableMcp : Bool
  validClientResponse : String → Body → Bool
  validInitializeResponse : Json → Bool

@[irreducible] def retiredIdLimit : Nat := 2048

/-- The code of a well-formed error payload. -/
def remoteCode : Json → Option Int
  | .obj fields =>
    match Json.field? fields "code", Json.field? fields "message" with
    | some (.int code), some (.str _) => some code
    | _, _ => none
  | _ => none

/-- What `_route_response` sets the future to, and whether it raises then. -/
def Settings.outcomeOf (env : Settings) (method : String) (body : Body) : Outcome × Bool :=
  match body with
  | .error payload =>
    match remoteCode payload with
    | some code =>
      if env.validClientResponse method body then (.raised (.remote code), false)
      else (.raised .protocol, true)
    | none => (.raised .protocol, true)
  | .result value =>
    if env.validClientResponse method body then (.result value, false)
    else (.raised .protocol, true)

/-! ## State -/

/-- Where a call of `_request_for_generation` stands. -/
inductive Stage where
  | registered
  | writing
  | raising (error : ClientError)
  | waiting
  /-- `future.result` timed out. -/
  | expired
  | overtaken
  | ended (outcome : Outcome)
  deriving DecidableEq

structure Request where
  generation : Nat
  method : String
  stage : Stage
  future : Option Outcome

/-- An `AppServerRequest`; the object is known by when it was received. -/
structure ServerRequest where
  generation : Nat
  requestId : RequestId
  deriving DecidableEq

def ServerRequest.key (q : ServerRequest) : Key := (q.generation, q.requestId)

inductive Payload where
  | request (n : Nat)
  | answer (k : Nat)
  /-- `initialized`. -/
  | notice
  deriving DecidableEq

/-- The holder of the write lock and the process whose pipe it writes to. -/
structure Writing where
  payload : Payload
  stream : Nat

/-- What became of a response line. -/
inductive Verdict where
  | taken (n : Nat)
  | swallowed
  | unmatched
  deriving DecidableEq

inductive Event where
  | registered (generation n : Nat)
  | response (generation : Nat) (id : RequestId) (body : Body) (verdict : Verdict)
  | retired (key : Key)
  | timedOut (generation n : Nat)
  | settled (n : Nat) (outcome : Outcome)
  | ended (n : Nat) (outcome : Outcome)
  | received (k : Nat) (q : ServerRequest)
  | answered (k stream : Nat)
  | discarded (key : Key)
  | failed (generation : Nat)
  | spawned (generation : Nat)
  deriving DecidableEq

/-- Processes are known by the generation they serve. The trace has its newest event
first. -/
structure Link where
  generation : Nat
  process : Option Nat
  exited : List Nat
  stdinClosed : List Nat
  readers : List Nat
  raisingReaders : List (Nat × ClientError)
  ready : Bool
  dispatchGeneration : Option Nat
  generationFailures : Dict Nat ClientError
  nextRequestId : Nat
  requests : Dict Nat Request
  pending : List Key
  retiredIds : List Key
  retiredIdSet : List Key
  settling : List (Nat × Outcome)
  received : Dict Nat ServerRequest
  serverRequests : List Key
  queued : List Nat
  /-- Request objects in the hands of a caller of `respond`. -/
  held : List Nat
  /-- Answers on their way to `_write_message`. -/
  answering : List Nat
  writer : Option Writing
  /-- Calls of `_fail_generation_pending` still to be made. -/
  failers : List (Nat × ClientError)
  /-- Calls of `_close_stdin` still to be made. -/
  closers : List Nat
  trace : List Event

def Link.initial : Link where
  generation := 0
  process := none
  exited := []
  stdinClosed := []
  readers := []
  raisingReaders := []
  ready := false
  dispatchGeneration := none
  generationFailures := .empty
  nextRequestId := 1
  requests := .empty
  pending := []
  retiredIds := []
  retiredIdSet := []
  settling := []
  received := .empty
  serverRequests := []
  queued := []
  held := []
  answering := []
  writer := none
  failers := []
  closers := []
  trace := []

def keyOf (generation n : Nat) : Key := (generation, .number n)

/-- The request of ours that a key of the pending table belongs to. -/
def Key.number : Key → Nat
  | (_, .number n) => n.toNat
  | (_, .text _) => 0

namespace Link

variable (l : Link)

/-- `_process` is set and `poll()` says it runs. -/
def isAlive : Bool :=
  match l.process with
  | some p => p ∉ l.exited
  | none => false

def setStage (n : Nat) (stage : Stage) : Link :=
  { l with requests := l.requests.update n fun q => { q with stage := stage } }

def endRequest (n : Nat) (outcome : Outcome) : Link :=
  { l.setStage n (.ended outcome) with trace := .ended n outcome :: l.trace }

def retireId (key : Key) : Link :=
  let ids := l.retiredIds ++ [key]
  let excess := ids.length - retiredIdLimit
  { l with
    retiredIds := ids.drop excess
    retiredIdSet := (l.retiredIdSet.insert key).filter fun k => k ∉ ids.take excess
    trace := .retired key :: l.trace }

/-- What `_fail_generation_pending` does to one of the keys. -/
def failPendingKey (key : Key) (error : ClientError) : Link :=
  { ({ l with pending := l.pending.erase key }).retireId key with
    settling := l.settling ++ [(key.number, .raised error)] }

/-- The section of `_fail_generation_pending`. -/
def failGenerationPending (generation : Nat) (error : ClientError) : Link :=
  (l.pending.filter fun key => key.1 = generation).foldl
    (fun l key => l.failPendingKey key error) l

/-- The section of `_fail_all_pending`. -/
def failAllPending : Link :=
  { l with
    pending := []
    settling := l.settling ++ l.pending.map fun key => (key.number, .raised .unavailable) }

def settled (i n : Nat) (outcome : Outcome) : Link :=
  { l with
    settling := l.settling.eraseIdx i
    requests := l.requests.update n fun q =>
      { q with future := q.future.orElse fun _ => some outcome }
    trace := .settled n outcome :: l.trace }

/-- A thread sets a future that was taken from the table. -/
def settle (i : Nat) : Option Link :=
  match l.settling[i]? with
  | some (n, outcome) => some (l.settled i n outcome)
  | none => none

/-- The section of `_mark_generation_failed`. -/
def markGenerationFailed (generation : Nat) (error : ClientError) : Link :=
  if generation ≠ l.generation then l
  else
    { l with
      generationFailures :=
        if l.generationFailures.contains generation then l.generationFailures
        else l.generationFailures.set generation error
      ready := false
      dispatchGeneration :=
        if l.dispatchGeneration = some generation then none else l.dispatchGeneration
      failers := (generation, error) :: l.failers
      closers := l.process.toList ++ l.closers
      trace := .failed generation :: l.trace }

/-- `_discard_generation_server_requests`. -/
def discardGeneration (generation : Nat) : Link :=
  { l with serverRequests := l.serverRequests.filter fun key => key.1 ≠ generation }

/-- `abort_generation`, and whether it returns true. -/
def abortGeneration (generation : Nat) (closed : Bool) : Bool × Link :=
  if closed || generation ≠ l.generation || l.generationFailures.contains generation ||
      !l.isAlive then (false, l)
  else
    (true, { l.discardGeneration generation with
      generationFailures := l.generationFailures.set generation .unavailable
      ready := false
      dispatchGeneration :=
        if l.dispatchGeneration = some generation then none else l.dispatchGeneration
      failers := (generation, .unavailable) :: l.failers
      closers := l.process.toList ++ l.closers
      trace := .failed generation :: l.trace })

/-- The first section of `_request_for_generation`. -/
def register (env : Settings) (generation : Nat) (method : String) (requireReady : Bool) :
    Except ClientError (Nat × Link) := do
  refuse (l.generation ≠ generation ∨ l.isAlive = false ∨ (requireReady ∧ l.ready = false))
    .unavailable
  refuse (l.pending.length ≥ env.maxPendingRequests) .overloaded
  let n := l.nextRequestId
  return (n, { l with
    nextRequestId := n + 1
    requests := l.requests.set n ⟨generation, method, .registered, none⟩
    pending := l.pending ++ [keyOf generation n]
    trace := .registered generation n :: l.trace })

/-- `_write_message` up to the write: the pipe, or it raises. -/
def openStream (generation : Nat) : Option Nat :=
  if generation ≠ l.generation then none
  else
    match l.process with
    | some p => if p ∈ l.exited then none else some p
    | none => none

def abandon (n : Nat) (q : Request) (error : ClientError) : Link :=
  { l with pending := l.pending.erase (keyOf q.generation n) }.endRequest n (.raised error)

def withdraw (n : Nat) (q : Request) : Link :=
  let key := keyOf q.generation n
  if key ∈ l.pending then
    let taken := { l with pending := l.pending.erase key }.retireId key
    { taken with trace := .timedOut q.generation n :: taken.trace }.endRequest n
      (.raised .timeout)
  else l.setStage n .overtaken

def conclude (n : Nat) (q : Request) : Link :=
  l.endRequest n (q.future.getD (.raised .timeout))

def readerRaises (generation : Nat) (error : ClientError) : Link :=
  { l with
    readers := l.readers.erase generation
    raisingReaders := (generation, error) :: l.raisingReaders }

def routeResponse (env : Settings) (generation : Nat) (id : RequestId) (body : Body) : Link :=
  let key : Key := (generation, id)
  if key ∈ l.pending then
    let n := key.number
    let method := (l.requests.get? n).elim "" Request.method
    let (outcome, raises) := env.outcomeOf method body
    let taken := { l with
      pending := l.pending.erase key
      settling := l.settling ++ [(n, outcome)]
      trace := .response generation id body (.taken n) :: l.trace }
    if raises then taken.readerRaises generation .protocol else taken
  else if key ∈ l.retiredIdSet then
    { l with
      retiredIdSet := l.retiredIdSet.erase key
      trace := .response generation id body .swallowed :: l.trace }
  else
    { l with trace := .response generation id body .unmatched :: l.trace }.readerRaises
      generation .protocol

/-- `_route_server_request`, up to the answer or the callback. -/
def routeServerRequest (env : Settings) (k : Nat) (q : ServerRequest) (handled : Bool) : Link :=
  if q.key ∈ l.serverRequests then l.readerRaises q.generation .protocol
  else
    let known := { l with
      received := l.received.set k q
      trace := .received k q :: l.trace }
    if l.serverRequests.length ≥ env.maxPendingRequests then
      { known with answering := k :: l.answering }
    else if handled then
      { known with serverRequests := q.key :: l.serverRequests, queued := k :: l.queued }
    else { known with serverRequests := q.key :: l.serverRequests, held := k :: l.held }

/-- `invoke` looks whether the request still stands. -/
def invoke (k : Nat) (q : ServerRequest) : Link :=
  let run := { l with queued := l.queued.erase k }
  if q.key ∉ l.serverRequests ∨ l.dispatchGeneration ≠ some q.generation then run
  else { run with held := k :: l.held }

/-- The section of `respond`; it raises when the token is gone. -/
def takeToken (k : Nat) (q : ServerRequest) : Link :=
  if q.generation ≠ l.generation ∨ q.key ∉ l.serverRequests then l
  else
    { l with
      serverRequests := l.serverRequests.erase q.key
      answering := k :: l.answering }

def discardServerRequest (generation : Nat) (id : RequestId) (closed : Bool) : Link :=
  let key : Key := (generation, id)
  if closed ∨ generation ≠ l.generation ∨ key ∉ l.serverRequests then l
  else
    { l with
      serverRequests := l.serverRequests.erase key
      trace := .discarded key :: l.trace }

/-- `_write_message` raised before or at the write. -/
def writeFails (payload : Payload) (error : ClientError) : Link :=
  match payload with
  | .request n => l.setStage n (.raising error)
  | .answer k => { l with answering := l.answering.erase k }
  | .notice => l

/-- `_write_message` takes the write lock and checks the generation. -/
def startWrite (payload : Payload) (generation : Nat) : Link :=
  match l.openStream generation with
  | none => l.writeFails payload .unavailable
  | some p =>
    let started := { l with writer := some ⟨payload, p⟩ }
    match payload with
    | .request n => started.setStage n .writing
    | _ => started

def wrote (w : Writing) : Link :=
  let done := { l with writer := none }
  match w.payload with
  | .request n => done.setStage n .waiting
  | .answer k =>
    { done with
      answering := l.answering.erase k
      trace := .answered k w.stream :: l.trace }
  | .notice => done

def writeBroke (w : Writing) (generation : Nat) (error : ClientError) : Link :=
  ({ l with writer := none }.markGenerationFailed generation error).writeFails w.payload error

/-- The section of `_spawn_generation`. -/
def spawn : Link :=
  let g := l.generation + 1
  { l with
    generation := g
    process := some g
    readers := g :: l.readers
    trace := .spawned g :: l.trace }

def clearReady (generation : Nat) : Link :=
  { l with ready := false, trace := .failed generation :: l.trace }

/-- The last section of the teardown. -/
def clearProcess (generation : Nat) (process : Option Nat) : Link :=
  { l with
    process := if l.process = process then none else l.process
    dispatchGeneration :=
      if l.dispatchGeneration = some generation then none else l.dispatchGeneration
    generationFailures := l.generationFailures.erase generation }

end Link

/-! ## Steps -/

inductive Pipe where
  | written | broken | short
  deriving DecidableEq

inductive LinkStep where
  | register (generation : Nat) (method : String) (requireReady : Bool)
  | invalid (n : Nat) (error : ClientError)
  | startWrite (n : Nat)
  | abandon (n : Nat)
  | deliver (n : Nat)
  | expire (n : Nat)
  | withdraw (n : Nat)
  | conclude (n : Nat)
  | settle (i : Nat)
  | response (generation : Nat) (id : RequestId) (body : Body)
  | serverRequest (k : Nat) (q : ServerRequest) (handled : Bool)
  | overflow (k : Nat)
  | invoke (k : Nat)
  | respond (k : Nat)
  | rejectAnswer (k : Nat)
  | startAnswer (k : Nat)
  | flush (result : Pipe)
  | discard (generation : Nat) (id : RequestId)
  | abort (generation : Nat)
  | mark (generation : Nat)
  /-- The end of the output, a malformed line, or no room for a callback. -/
  | readerRaises (generation : Nat) (error : ClientError)
  | readerFails (generation : Nat) (error : ClientError)
  | readerStops (generation : Nat)
  | failPending (i : Nat)
  | closeStdin (p : Nat)
  | exit (p : Nat)

namespace Link

def atStage (l : Link) (n : Nat) (allowed : Stage → Bool) (act : Request → Link) : Option Link :=
  match l.requests.get? n with
  | some q => if allowed q.stage then some (act q) else none
  | none => none

def atServerRequest (l : Link) (k : Nat) (allowed : Bool) (act : ServerRequest → Link) :
    Option Link :=
  match l.received.get? k with
  | some q => if allowed then some (act q) else none
  | none => none

def flush (l : Link) (w : Writing) (generation : Nat) : Pipe → Option Link
  | .written => if w.stream ∈ l.stdinClosed then none else some (l.wrote w)
  | .broken => some (l.writeBroke w generation .unavailable)
  | .short => if w.stream ∈ l.stdinClosed then none else some (l.writeBroke w generation .protocol)

def next (env : Settings) (closed : Bool) (l : Link) : LinkStep → Option Link
  | .register g method requireReady =>
    match l.register env g method requireReady with
    | .ok (_, t) => some t
    | .error _ => some l
  | .invalid n error =>
    l.atStage n (· = .registered) fun _ => l.setStage n (.raising error)
  | .startWrite n =>
    if l.writer = none then
      l.atStage n (· = .registered) fun q => l.startWrite (.request n) q.generation
    else none
  | .abandon n =>
    match l.requests.get? n with
    | some q =>
      match q.stage with
      | .raising error => some (l.abandon n q error)
      | _ => none
    | none => none
  | .deliver n =>
    match l.requests.get? n with
    | some ⟨_, _, .waiting, some outcome⟩ => some (l.endRequest n outcome)
    | _ => none
  | .expire n =>
    match l.requests.get? n with
    | some ⟨_, _, .waiting, none⟩ => some (l.setStage n .expired)
    | _ => none
  | .withdraw n => l.atStage n (· = .expired) (l.withdraw n)
  | .conclude n => l.atStage n (· = .overtaken) (l.conclude n)
  | .settle i => l.settle i
  | .response g id body => if g ∈ l.readers then some (l.routeResponse env g id body) else none
  | .serverRequest k q handled =>
    if q.generation ∈ l.readers ∧ !l.received.contains k then
      some (l.routeServerRequest env k q handled)
    else none
  | .overflow k =>
    if k ∈ l.queued then some { l with queued := l.queued.erase k, held := k :: l.held }
    else none
  | .invoke k => l.atServerRequest k (k ∈ l.queued) (l.invoke k)
  | .respond k => l.atServerRequest k (k ∈ l.held) (l.takeToken k)
  | .rejectAnswer k =>
    if k ∈ l.answering ∧ l.writer.map Writing.payload ≠ some (.answer k) then
      some { l with answering := l.answering.erase k }
    else none
  | .startAnswer k =>
    l.atServerRequest k (l.writer = none ∧ k ∈ l.answering) fun q =>
      l.startWrite (.answer k) q.generation
  | .flush result =>
    match l.writer with
    | some ⟨.request n, p⟩ =>
      match l.requests.get? n with
      | some q => l.flush ⟨.request n, p⟩ q.generation result
      | none => none
    | some ⟨.answer k, p⟩ =>
      match l.received.get? k with
      | some q => l.flush ⟨.answer k, p⟩ q.generation result
      | none => none
    | _ => none
  | .discard g id => some (l.discardServerRequest g id closed)
  | .abort g => some (l.abortGeneration g closed).2
  | .mark g => some (l.markGenerationFailed g .protocol)
  | .readerRaises g error => if g ∈ l.readers then some (l.readerRaises g error) else none
  | .readerFails g error =>
    if (g, error) ∈ l.raisingReaders then
      let marked := l.markGenerationFailed g error
      some { marked with
        raisingReaders := l.raisingReaders.erase (g, error)
        closers := g :: marked.closers }
    else none
  | .readerStops g => if closed then some { l with readers := l.readers.erase g } else none
  | .failPending i =>
    match l.failers[i]? with
    | some (g, error) =>
      some ({ l with failers := l.failers.eraseIdx i }.failGenerationPending g error)
    | none => none
  | .closeStdin p =>
    if p ∈ l.closers then
      some { l with closers := l.closers.erase p, stdinClosed := p :: l.stdinClosed }
    else none
  | .exit p => if p ≤ l.generation then some { l with exited := p :: l.exited } else none

theorem register_spec {l t : Link} {env : Settings} {g n : Nat} {method : String}
    {requireReady : Bool} (hr : l.register env g method requireReady = .ok (n, t)) :
    g = l.generation ∧ n = l.nextRequestId ∧ t = { l with
      nextRequestId := n + 1
      requests := l.requests.set n ⟨g, method, .registered, none⟩
      pending := l.pending ++ [keyOf g n]
      trace := .registered g n :: l.trace } := by
  unfold Link.register at hr
  rw [refuse_bind_eq_ok, refuse_bind_eq_ok] at hr
  obtain ⟨hguard, -, hr⟩ := hr
  cases hr
  refine ⟨?_, rfl, rfl⟩
  exact (not_not.mp (not_or.mp hguard).1).symm

/-! ## What no step of the link does

Only the supervisor starts and drops processes, makes the client ready and writes
notifications. -/

structure Core (l t : Link) : Prop where
  generation : t.generation = l.generation
  process : t.process = l.process
  stdinClosed : ∀ p ∈ l.stdinClosed, p ∈ t.stdinClosed
  ready : t.ready = true → l.ready = true
  notice : ∀ p, t.writer = some ⟨.notice, p⟩ ↔ l.writer = some ⟨.notice, p⟩

section

variable {l t u : Link} {env : Settings} {closed : Bool}

theorem core_of (hgeneration : t.generation = l.generation) (hprocess : t.process = l.process)
    (hclosed : t.stdinClosed = l.stdinClosed) (hready : t.ready = l.ready)
    (hwriter : t.writer = l.writer) : Core l t where
  generation := hgeneration
  process := hprocess
  stdinClosed p hp := by rw [hclosed]; exact hp
  ready hr := by rw [← hready]; exact hr
  notice p := by rw [hwriter]

theorem core_refl (l : Link) : Core l l := core_of rfl rfl rfl rfl rfl

theorem Core.trans (h : Core l t) (h' : Core t u) : Core l u where
  generation := h'.generation.trans h.generation
  process := h'.process.trans h.process
  stdinClosed p hp := h'.stdinClosed p (h.stdinClosed p hp)
  ready hr := h.ready (h'.ready hr)
  notice p := (h'.notice p).trans (h.notice p)

theorem core_failGenerationPending (l : Link) (g : Nat) (error : ClientError) :
    Core l (l.failGenerationPending g error) := by
  unfold failGenerationPending
  generalize l.pending.filter _ = keys
  induction keys generalizing l with
  | nil => exact core_refl l
  | cons key keys ih =>
    have hkey : Core l (l.failPendingKey key error) := core_of rfl rfl rfl rfl rfl
    exact hkey.trans (ih _)

theorem core_markGenerationFailed (l : Link) (g : Nat) (error : ClientError) :
    Core l (l.markGenerationFailed g error) := by
  unfold markGenerationFailed
  split
  · exact core_refl l
  · exact ⟨rfl, rfl, fun _ hp => hp, fun hr => (Bool.false_ne_true hr).elim, fun _ => Iff.rfl⟩

theorem core_abortGeneration (l : Link) (g : Nat) (closed : Bool) :
    Core l (l.abortGeneration g closed).2 := by
  unfold abortGeneration
  split
  · exact core_refl l
  · exact ⟨rfl, rfl, fun _ hp => hp, fun hr => (Bool.false_ne_true hr).elim, fun _ => Iff.rfl⟩

theorem core_withdraw (l : Link) (n : Nat) (q : Request) : Core l (l.withdraw n q) := by
  unfold withdraw
  simp only
  split
  · exact core_of rfl rfl rfl rfl rfl
  · exact core_of rfl rfl rfl rfl rfl

theorem core_routeResponse (l : Link) (env : Settings) (g : Nat) (id : RequestId) (body : Body) :
    Core l (l.routeResponse env g id body) := by
  unfold routeResponse
  simp only
  split
  · split
    · exact core_of rfl rfl rfl rfl rfl
    · exact core_of rfl rfl rfl rfl rfl
  · split
    · exact core_of rfl rfl rfl rfl rfl
    · exact core_of rfl rfl rfl rfl rfl

theorem core_routeServerRequest (l : Link) (env : Settings) (k : Nat) (q : ServerRequest)
    (handled : Bool) : Core l (l.routeServerRequest env k q handled) := by
  unfold routeServerRequest
  split
  · exact core_of rfl rfl rfl rfl rfl
  simp only
  split
  · exact core_of rfl rfl rfl rfl rfl
  split
  · exact core_of rfl rfl rfl rfl rfl
  · exact core_of rfl rfl rfl rfl rfl

theorem core_invoke (l : Link) (k : Nat) (q : ServerRequest) : Core l (l.invoke k q) := by
  unfold invoke
  simp only
  split
  · exact core_of rfl rfl rfl rfl rfl
  · exact core_of rfl rfl rfl rfl rfl

theorem core_takeToken (l : Link) (k : Nat) (q : ServerRequest) : Core l (l.takeToken k q) := by
  unfold takeToken
  split
  · exact core_refl l
  · exact core_of rfl rfl rfl rfl rfl

theorem core_discardServerRequest (l : Link) (g : Nat) (id : RequestId) (closed : Bool) :
    Core l (l.discardServerRequest g id closed) := by
  unfold discardServerRequest
  simp only
  split
  · exact core_refl l
  · exact core_of rfl rfl rfl rfl rfl

theorem core_writeFails (l : Link) (payload : Payload) (error : ClientError) :
    Core l (l.writeFails payload error) := by
  cases payload with
  | request n => exact core_of rfl rfl rfl rfl rfl
  | answer k => exact core_of rfl rfl rfl rfl rfl
  | notice => exact core_refl l

theorem core_startWrite (l : Link) {payload : Payload} (hp : payload ≠ .notice)
    (hw : l.writer = none) (g : Nat) : Core l (l.startWrite payload g) := by
  unfold startWrite
  split
  · exact core_writeFails l payload _
  cases payload with
  | request n => exact ⟨rfl, rfl, fun _ hp => hp, id, fun p => by simp [setStage, hw]⟩
  | answer k => exact ⟨rfl, rfl, fun _ hp => hp, id, fun p => by simp [hw]⟩
  | notice => exact absurd rfl hp

theorem core_release {w : Writing} (hp : w.payload ≠ .notice) (hw : l.writer = some w) :
    Core l { l with writer := none } where
  generation := rfl
  process := rfl
  stdinClosed _ hp := hp
  ready := id
  notice p := by
    constructor
    · intro hn
      cases hn
    · intro hn
      rw [hw] at hn
      cases hn
      exact absurd rfl hp

theorem core_flush {w : Writing} (hp : w.payload ≠ .notice) (hw : l.writer = some w) {g : Nat}
    {result : Pipe} (hs : l.flush w g result = some t) : Core l t := by
  have hreleased := core_release hp hw
  have hbroke : ∀ error, Core l (l.writeBroke w g error) := fun error =>
    (hreleased.trans (core_markGenerationFailed _ g error)).trans (core_writeFails _ _ error)
  have hwrote : Core l (l.wrote w) := by
    obtain ⟨payload, p⟩ := w
    cases payload with
    | request n => exact hreleased.trans (core_of rfl rfl rfl rfl rfl)
    | answer k => exact hreleased.trans (core_of rfl rfl rfl rfl rfl)
    | notice => exact hreleased
  cases result with
  | written =>
    simp only [flush] at hs
    split at hs
    · cases hs
    · cases hs
      exact hwrote
  | broken =>
    cases hs
    exact hbroke _
  | short =>
    simp only [flush] at hs
    split at hs
    · cases hs
    · cases hs
      exact hbroke _

theorem core_atStage {n : Nat} {allowed : Stage → Bool} {act : Request → Link}
    (hact : ∀ q, Core l (act q)) (hs : l.atStage n allowed act = some t) : Core l t := by
  unfold atStage at hs
  split at hs
  · split at hs
    · cases hs
      exact hact _
    · cases hs
  · cases hs

theorem core_atServerRequest {k : Nat} {allowed : Bool} {act : ServerRequest → Link}
    (hact : allowed = true → ∀ q, Core l (act q)) (hs : l.atServerRequest k allowed act = some t) :
    Core l t := by
  unfold atServerRequest at hs
  split at hs
  · rcases Runs.taken hs with ⟨ha, rfl⟩
    exact hact ha _
  · cases hs

theorem core_next {step : LinkStep} (hs : l.next env closed step = some t) : Core l t := by
  cases step with
  | register g method requireReady =>
    simp only [next] at hs
    split at hs
    · rename_i n u hr
      cases hs
      obtain ⟨-, -, rfl⟩ := register_spec hr
      exact core_of rfl rfl rfl rfl rfl
    · cases hs
      exact core_refl l
  | invalid n error =>
    simp only [next] at hs
    refine core_atStage ?_ hs
    intro q
    exact core_of rfl rfl rfl rfl rfl
  | startWrite n =>
    rcases Runs.enabled hs with ⟨hw, hs⟩
    exact core_atStage (fun q => core_startWrite l (by simp) hw q.generation) hs
  | abandon n =>
    simp only [next] at hs
    split at hs
    · split at hs
      · cases hs
        exact core_of rfl rfl rfl rfl rfl
      · cases hs
    · cases hs
  | deliver n =>
    simp only [next] at hs
    split at hs
    · cases hs
      exact core_of rfl rfl rfl rfl rfl
    · cases hs
  | expire n =>
    simp only [next] at hs
    split at hs
    · cases hs
      exact core_of rfl rfl rfl rfl rfl
    · cases hs
  | withdraw n =>
    simp only [next] at hs
    exact core_atStage (core_withdraw l n) hs
  | conclude n =>
    simp only [next] at hs
    refine core_atStage ?_ hs
    intro q
    exact core_of rfl rfl rfl rfl rfl
  | settle i =>
    simp only [next, settle] at hs
    split at hs
    · cases hs
      exact core_of rfl rfl rfl rfl rfl
    · cases hs
  | response g id body =>
    rcases Runs.taken hs with ⟨_, rfl⟩
    exact core_routeResponse l env g id body
  | serverRequest k q handled =>
    rcases Runs.taken hs with ⟨_, rfl⟩
    exact core_routeServerRequest l env k q handled
  | overflow k =>
    rcases Runs.taken hs with ⟨_, rfl⟩
    exact core_of rfl rfl rfl rfl rfl
  | invoke k =>
    simp only [next] at hs
    exact core_atServerRequest (fun _ => core_invoke l k) hs
  | respond k =>
    simp only [next] at hs
    exact core_atServerRequest (fun _ => core_takeToken l k) hs
  | rejectAnswer k =>
    rcases Runs.taken hs with ⟨_, rfl⟩
    exact core_of rfl rfl rfl rfl rfl
  | startAnswer k =>
    simp only [next] at hs
    refine core_atServerRequest (fun ha q => ?_) hs
    exact core_startWrite l (by simp) (of_decide_eq_true ha).1 q.generation
  | flush result =>
    simp only [next] at hs
    split at hs
    · rename_i n p hw
      split at hs
      · exact core_flush (by simp) hw hs
      · cases hs
    · rename_i k p hw
      split at hs
      · exact core_flush (by simp) hw hs
      · cases hs
    · cases hs
  | discard g id =>
    cases hs
    exact core_discardServerRequest l g id closed
  | abort g =>
    cases hs
    exact core_abortGeneration l g closed
  | mark g =>
    cases hs
    exact core_markGenerationFailed l g _
  | readerRaises g error =>
    rcases Runs.taken hs with ⟨_, rfl⟩
    exact core_of rfl rfl rfl rfl rfl
  | readerFails g error =>
    rcases Runs.taken hs with ⟨_, rfl⟩
    exact (core_markGenerationFailed l g error).trans (core_of rfl rfl rfl rfl rfl)
  | readerStops g =>
    rcases Runs.taken hs with ⟨_, rfl⟩
    exact core_of rfl rfl rfl rfl rfl
  | failPending i =>
    simp only [next] at hs
    split at hs
    · rename_i g error _
      cases hs
      have hremoved : Core l { l with failers := l.failers.eraseIdx i } :=
        core_of rfl rfl rfl rfl rfl
      exact hremoved.trans (core_failGenerationPending _ g error)
    · cases hs
  | closeStdin p =>
    rcases Runs.taken hs with ⟨_, rfl⟩
    exact ⟨rfl, rfl, fun _ hp => List.mem_cons_of_mem _ hp, id, fun _ => Iff.rfl⟩
  | exit p =>
    rcases Runs.taken hs with ⟨_, rfl⟩
    exact core_of rfl rfl rfl rfl rfl

end

end Link

end CodexBridge.AppServer
