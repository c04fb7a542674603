import CodexBridge.Library.Json
import CodexBridge.Library.Runs

/-! # The callback dispatcher of the app-server client

Notifications, server requests and diagnostics become callbacks, which one worker takes from a
bounded queue. Text deltas are joined with the callback that was queued last, as long as the
worker has not started it.

A step is what happens under one lock or one queue operation. Python's `==` between two numbers,
one of which is a float, is a parameter.
-/

namespace CodexBridge.AppServer.Callbacks

/-! ## Equality of parameters -/

/-- A number that is no float, `True` and `False` among them. -/
def integer? : Json → Option Int
  | .bool b => some (if b then 1 else 0)
  | .int n => some n
  | _ => none

mutual

def same (floats : Json → Json → Bool) : Json → Json → Bool
  | .null, .null => true
  | .str a, .str b => a = b
  | .arr as, .arr bs => sameItems floats as bs
  | .obj as, .obj bs => as.length = bs.length && sameFields floats as bs
  | .float a, .float b => floats (.float a) (.float b)
  | .float a, b => (integer? b).isSome && floats (.float a) b
  | a, .float b => (integer? a).isSome && floats a (.float b)
  | .bool a, b => integer? b = some (if a then 1 else 0)
  | .int a, b => integer? b = some a
  | _, _ => false

def sameItems (floats : Json → Json → Bool) : List Json → List Json → Bool
  | [], [] => true
  | a :: as, b :: bs => same floats a b && sameItems floats as bs
  | _, _ => false

def sameFields (floats : Json → Json → Bool) : List (String × Json) → List (String × Json) → Bool
  | [], _ => true
  | (key, a) :: rest, bs =>
    match Json.field? bs key with
    | some b => same floats a b && sameFields floats rest bs
    | none => false

end

structure Notification where
  method : String
  params : Json
  generation : Nat
deriving DecidableEq

/-- What is submitted: a notification with its handler, or a callable of the client's own for a
server request or a diagnostic. -/
inductive Item
  | notice (n : Notification) (handler : Nat)
  | task (id : Nat)
deriving DecidableEq

/-- `_COALESCIBLE_NOTIFICATION_FIELDS`. -/
def coalescibleField : String → Option String
  | "item/agentMessage/delta" => some "delta"
  | "item/plan/delta" => some "delta"
  | "item/reasoning/summaryTextDelta" => some "delta"
  | "item/reasoning/textDelta" => some "delta"
  | _ => none

def maxCoalescedBytes : Nat := 64 * 1024

def maxCoalescedFragments : Nat := 256

def completionReserve : Nat := 2

structure Delta where
  method : String
  generation : Nat
  handler : Nat
  field : String
  metadata : List (String × Json)
  text : String

/-- The delta of a notification that `create` accepts. -/
def Item.delta? : Item → Option Delta
  | .notice n handler =>
    (coalescibleField n.method).bind fun field =>
      match n.params with
      | .obj params =>
        ((Json.field? params field).bind Json.str?).map fun text =>
          ⟨n.method, n.generation, handler, field, params.filter (·.1 ≠ field), text⟩
      | _ => none
  | .task _ => none

def Delta.notification (d : Delta) (text : String) : Notification :=
  ⟨d.method, .obj (d.metadata ++ [(d.field, .str text)]), d.generation⟩

def Delta.matches (floats : Json → Json → Bool) (d e : Delta) : Bool :=
  d.method = e.method && d.generation = e.generation && d.handler = e.handler &&
    same floats (.obj d.metadata) (.obj e.metadata)

/-- `_CoalescedNotificationCallback`. The text in `delta` is the first one; `items` is history. -/
structure TextCallback where
  delta : Delta
  fragments : List String
  sizeBytes : Nat
  started : Bool
  items : List Item

namespace TextCallback

def create (item : Item) (d : Delta) : TextCallback where
  delta := d
  fragments := [d.text]
  sizeBytes := d.text.utf8ByteSize
  started := false
  items := [item]

/-- `try_coalesce`; there is no result where it returns `False`. -/
def tryCoalesce (floats : Json → Json → Bool) (t other : TextCallback) : Option TextCallback :=
  if t.delta.matches floats other.delta then
    let combined := t.sizeBytes + other.sizeBytes
    if t.started ∨ maxCoalescedBytes < combined then none
    else
      let fragments := if maxCoalescedFragments ≤ t.fragments.length then
        [String.join t.fragments] else t.fragments
      some { t with
        fragments := fragments ++ other.fragments
        sizeBytes := combined
        items := t.items ++ other.items }
  else none

end TextCallback

inductive Callback
  | text (id : Nat)
  | notice (n : Notification) (handler : Nat)
  | task (id : Nat)
  | stop
deriving DecidableEq

structure Call where
  items : List Item
  body : Item
deriving DecidableEq

structure Invocation where
  call : Call
  generation : Nat
  dispatchGeneration : Option Nat

def Invocation.current (i : Invocation) : Bool :=
  match i.call.body with
  | .notice n _ => n.generation = i.generation && i.dispatchGeneration = some n.generation
  | .task _ => true

/-! ## The dispatcher -/

/-- Where the thread that holds `_submit_lock` is in `submit`. -/
inductive Submitting
  | free
  | entered (item : Item)
  | checking (item : Item)
  | putting (item : Item)
  | settling (callback : Callback)
deriving DecidableEq

inductive Closing
  | «open»
  | clearing
  | draining
  | stopped
deriving DecidableEq

inductive Worker
  | unstarted
  | idle
  | holding (callback : Callback)
  | calling (call : Call)
  | handling (call : Call)
  | exited
deriving DecidableEq

/-- The client and its dispatcher. What was accepted, called and handled is history. -/
structure World where
  handlers : List (String × Nat)
  generation : Nat
  dispatchGeneration : Option Nat
  /-- Items of threads that wait for `_submit_lock`. -/
  waiting : List Item
  refused : List Item
  queue : List Callback
  texts : List TextCallback
  tail : Option Nat
  closed : Bool
  submitting : Submitting
  closing : Closing
  worker : Worker
  accepted : List Item
  calls : List Call
  invoked : List Invocation
  handled : List Call

namespace World

def initial : World where
  handlers := []
  generation := 0
  dispatchGeneration := none
  waiting := []
  refused := []
  queue := []
  texts := []
  tail := none
  closed := false
  submitting := .free
  closing := .open
  worker := .unstarted
  accepted := []
  calls := []
  invoked := []
  handled := []

def failGeneration (w : World) (generation : Nat) : World :=
  if generation ≠ w.generation then w
  else if w.dispatchGeneration = some generation then { w with dispatchGeneration := none }
  else w

def coalesced (floats : Json → Json → Bool) (w : World) (item : Item) :
    Option (Nat × TextCallback) :=
  w.tail.bind fun id =>
    (w.texts[id]?).bind fun t =>
      item.delta?.bind fun d => (t.tryCoalesce floats (.create item d)).map fun t' => (id, t')

def callbackOf (w : World) (item : Item) : Callback × List TextCallback :=
  match item.delta? with
  | some d => (.text w.texts.length, w.texts ++ [.create item d])
  | none =>
    match item with
    | .notice n handler => (.notice n handler, w.texts)
    | .task id => (.task id, w.texts)

/-- `callback()` up to what it runs: the call, and the callback objects after it. -/
def begun (w : World) : Callback → Option (Call × List TextCallback)
  | .text id =>
    (w.texts[id]?).map fun t =>
      (⟨t.items, .notice (t.delta.notification (String.join t.fragments)) t.delta.handler⟩,
        w.texts.set id { t with started := true })
  | .notice n handler => some (⟨[.notice n handler], .notice n handler⟩, w.texts)
  | .task id => some (⟨[.task id], .task id⟩, w.texts)
  | .stop => none

end World

inductive Action
  | register (method : String) (handler : Nat)
  | spawn
  | dispatch
  | fail (generation : Nat)
  | route (n : Notification)
  | offer (id : Nat)
  | enter (k : Nat)
  | coalesce
  | room
  | put
  | settle
  /-- The thread of a refused notification marks its generation as failed. -/
  | overload (k : Nat)
  | start
  | take
  | run
  | invoke
  | finish (raised : Bool)
  | close
  | clearTail
  | drain
  | stop

/-- One step, with `queued_callbacks` places for text. -/
def next (floats : Json → Json → Bool) (queued : Nat) (w : World) : Action → Option World
  | .register method handler => some { w with handlers := (method, handler) :: w.handlers }
  | .spawn => some { w with generation := w.generation + 1 }
  | .dispatch => some { w with dispatchGeneration := some w.generation }
  | .fail generation => some (w.failGeneration generation)
  | .route n =>
    ((w.handlers.find? fun h => h.1 = n.method).map Prod.snd).map fun handler =>
      { w with waiting := w.waiting ++ [.notice n handler] }
  | .offer id => some { w with waiting := w.waiting ++ [.task id] }
  | .enter k =>
    if w.submitting = .free then
      (w.waiting[k]?).map fun item =>
        if w.closed then
          { w with waiting := w.waiting.eraseIdx k, refused := w.refused ++ [item] }
        else { w with waiting := w.waiting.eraseIdx k, submitting := .entered item }
    else none
  | .coalesce =>
    match w.submitting with
    | .entered item =>
      match w.coalesced floats item with
      | some (id, t) =>
        some { w with
          texts := w.texts.set id t
          accepted := w.accepted ++ [item]
          submitting := .free }
      | none => some { w with submitting := .checking item }
    | _ => none
  | .room =>
    match w.submitting with
    | .checking item =>
      if item.delta?.isSome ∧ queued ≤ w.queue.length then
        some { w with submitting := .free, refused := w.refused ++ [item] }
      else some { w with submitting := .putting item }
    | _ => none
  | .put =>
    match w.submitting with
    | .putting item =>
      if queued + completionReserve ≤ w.queue.length then
        some { w with submitting := .free, refused := w.refused ++ [item] }
      else
        let made := w.callbackOf item
        some { w with
          queue := w.queue ++ [made.1]
          texts := made.2
          accepted := w.accepted ++ [item]
          submitting := .settling made.1 }
    | _ => none
  | .settle =>
    match w.submitting with
    | .settling (.text id) => some { w with tail := some id, submitting := .free }
    | .settling _ => some { w with tail := none, submitting := .free }
    | _ => none
  | .overload k =>
    (w.refused[k]?).map fun item =>
      let w' := { w with refused := w.refused.eraseIdx k }
      match item with
      | .notice n _ => w'.failGeneration n.generation
      | .task _ => w'
  | .start => if w.worker = .unstarted then some { w with worker := .idle } else none
  | .take =>
    if w.worker = .idle then
      match w.queue with
      | callback :: rest => some { w with queue := rest, worker := .holding callback }
      | [] => none
    else none
  | .run =>
    match w.worker with
    | .holding .stop =>
      some { w with
        queue := if queued + completionReserve ≤ w.queue.length then w.queue
          else w.queue ++ [.stop]
        worker := .exited }
    | .holding callback =>
      (w.begun callback).map fun begun =>
        { w with
          texts := begun.2
          calls := w.calls ++ [begun.1]
          worker := .calling begun.1 }
    | _ => none
  | .invoke =>
    match w.worker with
    | .calling call =>
      let i : Invocation := ⟨call, w.generation, w.dispatchGeneration⟩
      some { w with
        invoked := w.invoked ++ [i]
        handled := if i.current then w.handled ++ [call] else w.handled
        worker := if i.current then .handling call else .idle }
    | _ => none
  | .finish raised =>
    match w.worker with
    | .handling ⟨_, .notice n _⟩ =>
      let w' := { w with worker := .idle }
      some (if raised then w'.failGeneration n.generation else w')
    | .handling ⟨_, .task _⟩ => some { w with worker := .idle }
    | _ => none
  | .close =>
    if w.worker ≠ .unstarted ∧ w.closed = false then
      some { w with closed := true, closing := .clearing }
    else none
  | .clearTail =>
    if w.closing = .clearing ∧ w.submitting = .free then
      some { w with tail := none, closing := .draining }
    else none
  | .drain =>
    if w.closing = .draining then
      match w.queue with
      | _ :: rest => some { w with queue := rest }
      | [] => none
    else none
  | .stop =>
    if w.closing = .draining ∧ w.queue = [] then
      some { w with queue := [.stop], closing := .stopped }
    else none

end CodexBridge.AppServer.Callbacks
