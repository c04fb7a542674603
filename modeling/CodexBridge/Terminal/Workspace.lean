import CodexBridge.Library.Backlog

/-! # The workspace terminal

One shell at a time, in a client of its own that the terminal closes on exit. The terminal holds
the configuration lease and a quota reservation meanwhile. Its threads are the caller of an
operation, the one that waits for the command, the watch, the callbacks of the client and those
that stop it after bad output. An operation is cut where another thread can come in between;
what runs under the state lock alone is one step.
-/

namespace CodexBridge.Terminal

/-! ## Output -/

inductive State where
  | starting | running | closing | closed
  deriving DecidableEq

inductive Message where
  | starting | workspace | exited | stopped | outputLimit | invalidOutput | disconnected
  | accessChanged | storageLimit | unconfirmed | closed
  deriving DecidableEq

/-- `deltaBase64`: no string or one of more than 256 KiB, not base64, or the bytes it encodes. -/
inductive Delta where
  | oversized
  | invalid
  | bytes (data : List UInt8)
  deriving DecidableEq

structure Notification where
  own : Bool
  delta : Delta
  capReached : Bool
  early : Bool
  deriving DecidableEq

def Notification.data (n : Notification) : List UInt8 :=
  match n.delta with
  | .bytes data => data
  | _ => []

/-- Of the session, and before the end of its command. -/
def Notification.isDue (n : Notification) : Bool := n.own && n.early

def pieceBytes : Nat := 16 * 1024

def keptBytes : Nat := 256 * 1024

/-- `data[offset:offset + size]` for each offset. -/
def pieces (size : Nat) : Nat → List UInt8 → List (List UInt8)
  | 0, _ => []
  | fuel + 1, data =>
    match data with
    | [] => []
    | first :: rest =>
      (first :: rest).take size :: pieces size fuel ((first :: rest).drop size)

structure Output where
  sequence : Nat
  sizeBytes : Nat
  totalBytes : Nat
  chunks : List (Nat × List UInt8)

def Output.push (o : Output) (piece : List UInt8) : Output where
  sequence := o.sequence + 1
  sizeBytes := o.sizeBytes + piece.length
  totalBytes := o.totalBytes + piece.length
  chunks := o.chunks ++ [(o.sequence + 1, piece)]

def trim : Nat → List (Nat × List UInt8) → Nat × List (Nat × List UInt8)
  | size, [] => (size, [])
  | size, chunk :: rest =>
    if keptBytes < size then trim (size - chunk.2.length) rest else (size, chunk :: rest)

def Output.append (o : Output) (data : List UInt8) : Output :=
  let pushed := (pieces pieceBytes data.length data).foldl Output.push o
  let trimmed := trim pushed.sizeBytes pushed.chunks
  { pushed with sizeBytes := trimmed.1, chunks := trimmed.2 }

structure Client where
  /-- `close` was entered, so that a further call returns at once. -/
  isClosed : Bool
  /-- `close` has done its work. -/
  isDown : Bool
  queue : List Notification
  current : Option Notification

def Client.fresh : Client := ⟨false, false, [], none⟩

def Client.waiting (c : Client) : List Notification := c.current.toList ++ c.queue

inductive Waiter where
  | unstarted
  | requesting
  /-- The request has returned; `finally` waits for the operation lock. -/
  | ended
  | done
  /-- `finally` has raised. -/
  | died
  deriving DecidableEq

inductive Watch where
  | unstarted
  | watching
  | stopping (message : Message)
  | done
  deriving DecidableEq

/-- A thread of `_stop_async`, and whether a delta was dropped for it. -/
structure AsyncStop where
  message : Message
  dropped : Bool

structure Reader where
  cursor : Nat
  got : List (List UInt8)
  /-- Some answer had `truncated` set. -/
  warned : Bool

/-- One attempt to open a terminal. The last fields but one record what happened: all chunks in
order, the notifications received and appended, and the input sent. -/
structure Session where
  state : State
  message : Message
  exitCode : Option Int
  inputSequence : Nat
  output : Output
  lease : Bool
  reservation : Bool
  client : Option Client
  waiter : Waiter
  watch : Watch
  stops : List AsyncStop
  log : List (List UInt8)
  received : List Notification
  appended : List Notification
  inputs : List Nat
  reader : Reader

def Session.fresh : Session where
  state := .starting
  message := .starting
  exitCode := none
  inputSequence := 0
  output := ⟨0, 0, 0, []⟩
  lease := true
  reservation := false
  client := none
  waiter := .unstarted
  watch := .unstarted
  stops := []
  log := []
  received := []
  appended := []
  inputs := []
  reader := ⟨0, [], false⟩

structure View where
  state : State
  chunks : List (Nat × List UInt8)
  cursor : Nat
  truncated : Bool
  hasMore : Bool
  exitCode : Option Int
  message : Message

namespace Session

def read (s : Session) (after : Nat) : View :=
  let page := (Backlog.after s.output.chunks after).take 4
  { state := s.state
    chunks := page
    cursor := (page.getLast?.map Prod.fst).getD after
    truncated :=
      match s.output.chunks with
      | [] => false
      | first :: _ => decide (after < first.1 - 1)
    hasMore :=
      match page.getLast? with
      | none => false
      | some last => decide (last.1 < s.output.sequence)
    exitCode := s.exitCode
    message := s.message }

def readsOn (s : Session) : Session :=
  let view := s.read s.reader.cursor
  { s with reader := {
      cursor := view.cursor
      got := s.reader.got ++ view.chunks.map Prod.snd
      warned := s.reader.warned || view.truncated } }

def isOver (s : Session) : Bool := s.state = .closing || s.state = .closed

/-- `_stop_async`, whose thread may not start. -/
def stopAsync (s : Session) (starts : Bool) (message : Message) (dropped : Bool) : Session :=
  if starts then { s with stops := s.stops ++ [⟨message, dropped⟩] } else s

/-- `_output`, when the data may be appended. -/
def take (maximumBytes : Nat) (starts : Bool) (s : Session) (n : Notification)
    (data : List UInt8) : Session :=
  let output := s.output.append data
  let s := { s with
    state := .running
    message := .workspace
    output := output
    log := s.log ++ pieces pieceBytes data.length data
    appended := s.appended ++ [n] }
  if maximumBytes < output.totalBytes || n.capReached then s.stopAsync starts .outputLimit false
  else s

/-- `_output`. -/
def onOutput (maximumBytes : Nat) (starts : Bool) (s : Session) (n : Notification) : Session :=
  if !n.own then s
  else
    match n.delta with
    | .oversized => s.stopAsync starts .outputLimit true
    | .invalid => s.stopAsync starts .invalidOutput true
    | .bytes data => if s.isOver then s else s.take maximumBytes starts n data

def commandEnds (s : Session) (result : Option (Option Int)) : Session :=
  let s := { s with waiter := .ended }
  match result with
  | some code =>
    { s with
      exitCode := code
      message := if s.state = .closing then s.message else .exited }
  | none => { s with message := if s.state = .closing then s.message else .stopped }

/-- `client.close()`: whether it raises, and the session after it. -/
def closeClient (s : Session) (raises : Bool) : Session × Bool :=
  match s.client with
  | none => (s, false)
  | some c =>
    if c.isClosed then (s, false)
    else if raises then ({ s with client := some { c with isClosed := true } }, true)
    else
      ({ s with client := some { c with isClosed := true, isDown := true, queue := [] } }, false)

def release (s : Session) : Session := { s with reservation := false, lease := false }

end Session

/-! ## Operations -/

inductive Stage where
  | checking
  | creating
  | starting
  /-- The session is in place; the thread of `_run` starts. -/
  | running
  /-- The thread of `_watch` starts. -/
  | watching
  | failing
  | releasing
  deriving DecidableEq

inductive Operation where
  | idle
  | opening (k : Nat) (stage : Stage)
  | writing (k : Nat) (sequence : Nat)
  | sending (k : Nat) (sequence : Nat)
  | resizing (k : Nat)
  /-- `_stop` closes the client. -/
  | stopping (k : Nat)
  /-- `finally` of `_run`, before and after the client is closed. -/
  | finishing (k : Nat)
  | releasing (k : Nat)
  deriving DecidableEq

structure World where
  sessions : List Session
  current : Option Nat
  closed : Bool
  operation : Operation

def World.initial : World := ⟨[], none, false, .idle⟩

inductive Label where
  | open
  /-- The next call of `open` returns or raises. -/
  | openStep (raises : Bool)
  | clientClose (raises : Bool)
  | release
  | commandEnds (k : Nat) (result : Option (Option Int))
  | finish (k : Nat)
  | receive (k : Nat) (n : Notification)
  | dequeue (k : Nat)
  /-- Whether the thread of a stop starts, where there is to be one. -/
  | callback (k : Nat) (starts : Bool)
  /-- The generation ends or its queue is full, and what waits is dropped. -/
  | discard (k : Nat)
  | asyncStop (k : Nat) (index : Nat)
  /-- A turn of `_watch`, with the reason to stop if there is one. -/
  | watch (k : Nat) (reason : Option Message)
  | watchStops (k : Nat)
  | closeSession (k : Nat)
  | shutdown
  | write (k : Nat) (sequence : Nat)
  | writeChecked (editable : Bool)
  | writeReturns (delivered raises : Bool)
  | resize (k : Nat)
  | resizeReturns
  | read (k : Nat)

namespace World

def update (w : World) (k : Nat) (f : Session → Session) : World :=
  { w with sessions := w.sessions.modify k f }

def withOperation (w : World) (operation : Operation) : World := { w with operation := operation }

def isOccupied (w : World) : Bool :=
  match w.current.bind fun k => w.sessions[k]? with
  | none => false
  | some s => s.state ≠ .closed

/-- `_stop`, with the operation lock held. -/
def stop (w : World) (k : Nat) (message : Message) : World :=
  match w.sessions[k]? with
  | none => w.withOperation .idle
  | some s =>
    if s.isOver then w.withOperation .idle
    else (w.update k fun s => { s with state := .closing, message := message }).withOperation
      (.stopping k)

/-- `open` up to the lease, which is taken only when no terminal holds it. -/
def openSession (w : World) : Option World :=
  if w.operation ≠ .idle || w.closed || w.isOccupied || w.sessions.any Session.lease then none
  else some { w with
    sessions := w.sessions ++ [Session.fresh], operation := .opening w.sessions.length .checking }

def openStep (w : World) (raises : Bool) : Option World :=
  match w.operation with
  | .opening k stage =>
    match stage with
    | .checking =>
      if raises then some (w.withOperation (.opening k .releasing))
      else some ((w.update k fun s => { s with reservation := true }).withOperation
        (.opening k .creating))
    | .creating =>
      if raises then some (w.withOperation (.opening k .releasing))
      else some ((w.update k fun s => { s with client := some Client.fresh }).withOperation
        (.opening k .starting))
    | .starting =>
      if raises then some (w.withOperation (.opening k .failing))
      else some (({ w with current := some k } : World).withOperation (.opening k .running))
    | .running =>
      if raises then some (w.withOperation (.opening k .failing))
      else some ((w.update k fun s => { s with waiter := .requesting }).withOperation
        (.opening k .watching))
    | .watching =>
      if raises then some (w.withOperation (.opening k .failing))
      else some ((w.update k fun s => { s with watch := .watching }).withOperation .idle)
    | _ => none
  | _ => none

/-- `client.close()` of the operation returns or raises. -/
def clientClose (w : World) (raises : Bool) : Option World :=
  let closed (k : Nat) : World := w.update k fun s => (s.closeClient raises).1
  let failed (k : Nat) : Bool := (w.sessions[k]?.map fun s => (s.closeClient raises).2).getD false
  match w.operation with
  | .opening k .failing =>
    some ((closed k).withOperation (if failed k then .idle else .opening k .releasing))
  | .stopping k => some ((closed k).withOperation .idle)
  | .finishing k =>
    if failed k then
      some (((closed k).update k fun s => { s with waiter := .died }).withOperation .idle)
    else some ((closed k).withOperation (.releasing k))
  | _ => none

def release (w : World) : Option World :=
  match w.operation with
  | .opening k .releasing => some ((w.update k Session.release).withOperation .idle)
  | .releasing k =>
    some ((w.update k fun s => { s.release with state := .closed, waiter := .done }).withOperation
      .idle)
  | _ => none

def onSession (w : World) (k : Nat) (f : Session → Option Session) : Option World :=
  match w.sessions[k]? with
  | none => none
  | some s => (f s).map fun t => w.update k fun _ => t

def onClient (w : World) (k : Nat) (f : Session → Client → Option Session) : Option World :=
  w.onSession k fun s =>
    match s.client with
    | none => none
    | some c => f s c

/-- `_stop` of a thread that has the operation lock. -/
def stopFreely (w : World) (k : Nat) (message : Message) : Option World :=
  if w.operation = .idle then some (w.stop k message) else none

def runCallback (maximumBytes : Nat) (starts : Bool) (s : Session) (c : Client) :
    Option Session :=
  match c.current with
  | none => none
  | some n =>
    some (Session.onOutput maximumBytes starts { s with client := some { c with current := none } }
      n)

def receives (s : Session) (c : Client) (n : Notification) : Option Session :=
  if c.isDown then none
  else
    let n := { n with early := s.waiter = .requesting }
    some { s with
      client := some { c with queue := c.queue ++ [n] }
      received := if n.isDue then s.received ++ [n] else s.received }

def dequeues (s : Session) (c : Client) : Option Session :=
  match c.current, c.queue with
  | none, n :: rest => some { s with client := some { c with current := some n, queue := rest } }
  | _, _ => none

def watches (s : Session) (reason : Option Message) : Option Session :=
  if s.watch ≠ .watching then none
  else if s.state = .closed then some { s with watch := .done }
  else
    match reason with
    | none => some s
    | some message => some { s with watch := .stopping message }

/-- `write` up to its check of the workspace. -/
def write (w : World) (k sequence : Nat) : Option World :=
  match w.sessions[k]? with
  | none => none
  | some s =>
    if w.operation ≠ .idle || w.current ≠ some k || s.state ≠ .running || sequence = 0 then none
    else some (w.withOperation (.writing k sequence))

/-- The rest of `write` up to its request. -/
def writeChecked (w : World) (editable : Bool) : Option World :=
  match w.operation with
  | .writing k sequence =>
    if !editable then some (w.stop k .accessChanged)
    else
      match w.sessions[k]? with
      | none => none
      | some s =>
        if sequence ≤ s.inputSequence then some (w.withOperation .idle)
        else if sequence ≠ s.inputSequence + 1 then some (w.withOperation .idle)
        else some ((w.update k fun s => { s with inputSequence := sequence }).withOperation
          (.sending k sequence))
  | _ => none

/-- The request of `write` returns or raises; either way the shell may have got the input. -/
def writeReturns (w : World) (delivered raises : Bool) : Option World :=
  match w.operation with
  | .sending k sequence =>
    if !delivered && !raises then none
    else
      let sent := if delivered then
          w.update k fun s => { s with inputs := s.inputs ++ [sequence] }
        else w
      if raises then some (sent.stop k .unconfirmed) else some (sent.withOperation .idle)
  | _ => none

def resize (w : World) (k : Nat) : Option World :=
  match w.sessions[k]? with
  | none => none
  | some s =>
    if w.operation ≠ .idle || w.current ≠ some k || s.state ≠ .running then none
    else some (w.withOperation (.resizing k))

def asyncStop (w : World) (k index : Nat) : Option World :=
  match w.sessions[k]? with
  | none => none
  | some s =>
    match s.stops[index]? with
    | none => none
    | some thread =>
      World.stopFreely (w.update k fun s => { s with stops := s.stops.eraseIdx index }) k
        thread.message

def watchStops (w : World) (k : Nat) : Option World :=
  match w.sessions[k]? with
  | none => none
  | some s =>
    match s.watch with
    | .stopping message =>
      World.stopFreely (w.update k fun s => { s with watch := .done }) k message
    | _ => none

def shutdown (w : World) : Option World :=
  if w.operation ≠ .idle then none
  else
    match w.current with
    | none => some { w with closed := true }
    | some k => some (World.stop { w with closed := true } k .closed)

def finish (w : World) (k : Nat) : Option World :=
  match w.sessions[k]? with
  | none => none
  | some s =>
    if w.operation ≠ .idle || s.waiter ≠ .ended then none
    else some (w.withOperation (.finishing k))

def next (maximumBytes : Nat) (w : World) : Label → Option World
  | .open => w.openSession
  | .openStep raises => w.openStep raises
  | .clientClose raises => w.clientClose raises
  | .release => w.release
  | .commandEnds k result =>
    w.onSession k fun s =>
      if s.waiter = .requesting then some (s.commandEnds result) else none
  | .finish k => w.finish k
  | .receive k n => w.onClient k fun s c => receives s c n
  | .dequeue k => w.onClient k dequeues
  | .callback k starts => w.onClient k (runCallback maximumBytes starts)
  | .discard k => w.onClient k fun s c => some { s with client := some { c with queue := [] } }
  | .asyncStop k index => w.asyncStop k index
  | .watch k reason => w.onSession k fun s => watches s reason
  | .watchStops k => w.watchStops k
  | .closeSession k => if w.current = some k then w.stopFreely k .closed else none
  | .shutdown => w.shutdown
  | .write k sequence => w.write k sequence
  | .writeChecked editable => w.writeChecked editable
  | .writeReturns delivered raises => w.writeReturns delivered raises
  | .resize k => w.resize k
  | .resizeReturns =>
    match w.operation with
    | .resizing _ => some (w.withOperation .idle)
    | _ => none
  | .read k => if w.current = some k then w.onSession k fun s => some s.readsOn else none

end World

end CodexBridge.Terminal
