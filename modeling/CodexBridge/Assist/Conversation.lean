import CodexBridge.Assist.TaskActions
import Mathlib.Data.List.Sort

/-! # Assist conversations

The agent that turns a spoken question into a task of the Bridge and waits for its answer. The
handler of a message is cut at its requests: each is sent, handled by the Bridge and answered or
lost in one step, and a lost request may also reach the Bridge later. A reload of the entry puts
a new agent in the place of the old one, whose handler still runs to its end. The wording of the
replies that carry no answer is left out.
-/

namespace CodexBridge.Assist

/-! ## Settings -/

/-- The options of the entry; `instructions` is `none` when the stored value is no string. -/
structure Options where
  allowVoice : Bool
  instructions : Option String
  mcpServers : List String
  projectId : String
  model : String
  reasoning : String

/-- The capabilities the runtime has negotiated with the App. -/
structure Capabilities where
  taskActions : Bool
  conversation : Bool
  mcpSelection : Bool

def maxPromptChars : Nat := 4096

def maxAssistInstructions : Nat := 4096

def maxSessions : Nat := 64

def isAssistMcpName (name : String) : Bool :=
  match name.toList with
  | [] => false
  | c :: rest =>
    ('a' ≤ c && c ≤ 'z') && rest.length ≤ 63 &&
      rest.all fun d => ('a' ≤ d && d ≤ 'z') || ('0' ≤ d && d ≤ '9') || d = '_' || d = '-'

/-- `assist_mcp_selection`: the names in order, if they are valid and distinct. -/
def assistMcpSelection (names : List String) : Option (List String) :=
  if names.length ≤ 32 && names.all isAssistMcpName && decide names.Nodup then
    some (names.insertionSort fun a b => a ≤ b)
  else none

def assistPrompt (question instructions : String) : String :=
  if instructions = "" then question
  else "Conversation instructions:\n" ++ instructions ++ "\n\nUser question:\n" ++ question

/-- The pending fields of a session, which are set and cleared together; only the payload is
cleared before the others, when the task is accepted. -/
structure Pending where
  taskId : String
  prompt : String
  payload : Option Payload

structure Session where
  threadId : Option String
  ownerId : Option String
  mcpFingerprint : List String
  pending : Option Pending

/-- The outcome of the previous question, kept until it is spoken. -/
structure Previous where
  prompt : String
  answer : Option String

inductive Attempt where
  | first | again
  deriving DecidableEq

inductive Phase where
  | resubmitting
  | readingPrevious
  /-- In `_async_selection_supported`. -/
  | checking (previous : Option Previous)
  | submitting (previous : Option Previous) (attempt : Attempt)
  /-- In `_wait_for_answer`. -/
  | polling (previous : Option Previous)

/-- A message being handled. -/
structure Request where
  conversation : String
  prompt : String
  instructions : String
  selected : List String
  mcpSupported : Bool
  phase : Phase

structure Entity where
  sessions : Dict String Session
  /-- The holder of `_request_lock`. -/
  request : Option Request

def Entity.fresh : Entity := ⟨Dict.empty, none⟩

structure Message where
  conversation : String
  owner : Option String
  isAdmin : Bool
  text : String

inductive Reception where
  | reply (sessions : Dict String Session)
  | handle (sessions : Dict String Session) (request : Request)

def Session.phase (s : Session) : Phase :=
  match s.pending with
  | none => .checking none
  | some pending => if pending.payload.isSome then .resubmitting else .readingPrevious

/-- Room for one more session: the oldest without a pending question goes. -/
def makeRoom (sessions : Dict String Session) : Option (Dict String Session) :=
  if sessions.size < maxSessions then some sessions
  else
    match sessions.entries.find? fun e => e.2.pending.isNone with
    | none => none
    | some e => some (sessions.erase e.1)

/-- The checks before the request lock. -/
def isAllowed (options : Options) (capabilities : Capabilities) (m : Message)
    (selected : List String) : Bool :=
  (match m.owner with
    | none => options.allowVoice
    | some _ => m.isAdmin) &&
  (match options.instructions with
    | none => false
    | some text => text.length ≤ maxAssistInstructions) &&
  PyText.strip m.text ≠ "" && (PyText.strip m.text).length ≤ maxPromptChars &&
  capabilities.conversation && (selected = [] || capabilities.mcpSelection)

/-- `_async_handle_message` up to its first request. -/
def Entity.receive (options : Options) (capabilities : Capabilities) (answered : Bool)
    (e : Entity) (m : Message) : Reception :=
  match assistMcpSelection options.mcpServers with
  | none => .reply e.sessions
  | some selected =>
    if !isAllowed options capabilities m selected || e.request.isSome then .reply e.sessions
    else
      let request : Request :=
        ⟨m.conversation, PyText.strip m.text, options.instructions.getD "", selected,
          capabilities.mcpSelection, .checking none⟩
      match e.sessions.get? m.conversation with
      | some session =>
        if session.mcpFingerprint ≠ selected then .reply (e.sessions.erase m.conversation)
        else if session.ownerId ≠ m.owner then .reply e.sessions
        else
          -- `move_to_end`
          .handle ((e.sessions.erase m.conversation).set m.conversation session)
            { request with phase := session.phase }
      | none =>
        if answered then .reply e.sessions
        else
          match makeRoom e.sessions with
          | none => .reply e.sessions
          | some sessions =>
            .handle (sessions.set m.conversation ⟨none, m.owner, selected, none⟩) request

/-- What `_async_selection_supported` reads: the live choices, and the model and level of the
chat or the defaults of the project, if there is one. -/
structure Catalogue where
  choices : List (String × List String)
  target : Option (String × String)

def isSupported (choices : List (String × List String)) (model reasoning : String) : Bool :=
  match choices.find? fun entry => entry.1 = model with
  | none => false
  | some entry => reasoning ∈ entry.2

def isChosenOf (model reasoning : String) (target : String × String) : Bool :=
  (model = "" || target.1 = model) && (reasoning = "" || target.2 = reasoning)

/-- `_async_selection_supported`; `none` is a `BridgeApiError`. -/
def selectionSupported (options : Options) (session : Session) (found : Option Catalogue) : Bool :=
  if options.model = "" && options.reasoning = "" then true
  else
    match found with
    | none => false
    | some catalogue =>
      match catalogue.choices, catalogue.target with
      | [], _ => false
      | _, none => false
      | choices, some target =>
        if session.threadId.isSome then
          isChosenOf options.model options.reasoning target &&
            isSupported choices target.1 target.2
        else
          isSupported choices (if options.model = "" then target.1 else options.model)
            (if options.reasoning = "" then target.2 else options.reasoning)

def newPayload (options : Options) (session : Session) (r : Request) (taskId : String) : Payload :=
  { taskId := taskId
    prompt := assistPrompt r.prompt (PyText.strip r.instructions)
    assistMcpServers := if r.mcpSupported then some r.selected else none
    target :=
      match session.threadId with
      | some threadId => .thread threadId
      | none => .start
          { projectId := options.projectId
            title := "Assist conversation"
            modelOverride := if options.model = "" then none else some options.model
            thinkingOverride := if options.reasoning = "" then none else some options.reasoning } }

structure Question where
  conversation : String
  prompt : String
  deriving DecidableEq

/-- A task sent for a question, with the number of the chat log it was asked in. -/
structure Submission where
  question : Question
  log : Nat
  payload : Payload
  deriving DecidableEq

inductive Event where
  | submitted (s : Submission)
  | refused (taskId : String)
  | admitted (taskId : String)
  | settled (taskId : String)
  | gave (taskId answer : String)
  | spoke (question : Question) (answer : String)
  deriving DecidableEq

/-! ## The system -/

/-- The chat log of a conversation: how many came before it, and whether it has an assistant
message. -/
structure Log where
  number : Nat
  answered : Bool

/-- The first entity is the one in place. The last two fields record what happened: the task
identifiers drawn and the events, newest first. -/
structure World where
  options : Options
  capabilities : Capabilities
  logs : Dict String Log
  entities : List Entity
  bridge : Bridge
  /-- Requests whose sender has given up and that have not reached the Bridge. -/
  delayed : List Payload
  drawn : List String
  trace : List Event

def World.initial (options : Options) (capabilities : Capabilities) (bridge : Bridge) : World :=
  ⟨options, capabilities, Dict.empty, [Entity.fresh], bridge, [], [], []⟩

/-- What becomes of a request that submits a task. -/
inductive Delivery where
  | answered (trouble : Trouble)
  | lost (trouble : Trouble)
  | delayed
  | unsent

inductive Reply where
  | accepted (threadId : String)
  | failed (p : Problem)
  /-- `BridgeApiConnectionError`. -/
  | unreachable

inductive Reading where
  | arrives
  | fails

inductive Label where
  | message (m : Message)
  | check (entity : Nat) (found : Option Catalogue) (uuid : String)
  | post (entity : Nat) (delivery : Delivery)
  | read (entity : Nat) (reading : Reading)
  /-- The time of `_wait_for_answer` is over. -/
  | expire (entity : Nat)
  | arrive (index : Nat) (trouble : Trouble)
  | bridge (change : Bridge.Change)
  | configure (options : Options)
  | reload (options : Options)
  | negotiate (capabilities : Capabilities)
  | newLog (conversation : String)
  | otherAnswer (conversation : String)

namespace World

def log (w : World) (conversation : String) : Log :=
  (w.logs.get? conversation).getD ⟨0, false⟩

def markAnswered (w : World) (conversation : String) : World :=
  { w with logs := w.logs.set conversation { w.log conversation with answered := true } }

def withEntity (w : World) (k : Nat) (e : Entity) : World :=
  { w with entities := w.entities.set k e }

def withEvents (w : World) (events : List Event) : World :=
  { w with trace := events ++ w.trace }

def active (w : World) (k : Nat) : Option (Entity × Request × Session) :=
  match w.entities[k]? with
  | none => none
  | some e =>
    match e.request with
    | none => none
    | some r => (e.sessions.get? r.conversation).map fun session => (e, r, session)

def goesOn (w : World) (k : Nat) (e : Entity) (r : Request) (session : Session)
    (phase : Phase) : World :=
  w.withEntity k
    ⟨e.sessions.set r.conversation session, some { r with phase := phase }⟩

/-- The handler replies and ends; `none` drops the session. -/
def ends (w : World) (k : Nat) (e : Entity) (r : Request) (session : Option Session) : World :=
  let sessions :=
    match session with
    | some session => e.sessions.set r.conversation session
    | none => e.sessions.erase r.conversation
  (w.withEntity k ⟨sessions, none⟩).markAnswered r.conversation

/-- `previous_answer[:1024]`, where the previous question had an answer. -/
def speaksPrevious (r : Request) (previous : Option Previous) : List Event :=
  match previous with
  | some ⟨prompt, some answer⟩ =>
    [.spoke ⟨r.conversation, prompt⟩ (String.ofList (answer.toList.take 1024))]
  | _ => []

def receive (w : World) (m : Message) : Option World :=
  match w.entities with
  | [] => none
  | e :: former =>
    match e.receive w.options w.capabilities (w.log m.conversation).answered m with
    | .reply sessions =>
      some (World.markAnswered { w with entities := { e with sessions := sessions } :: former }
        m.conversation)
    | .handle sessions request => some { w with entities := ⟨sessions, some request⟩ :: former }

def newTask (w : World) (k : Nat) (e : Entity) (r : Request) (session : Session)
    (previous : Option Previous) (uuid : String) : World :=
  let pending : Pending := ⟨uuid, r.prompt, some (newPayload w.options session r uuid)⟩
  World.goesOn { w with drawn := uuid :: w.drawn } k e r { session with pending := some pending }
    (.submitting previous .first)

/-- `_async_selection_supported` returns; `uuid4` never repeats an identifier. -/
def check (w : World) (k : Nat) (found : Option Catalogue) (uuid : String) : Option World :=
  match w.active k with
  | none => none
  | some (e, r, session) =>
    match r.phase with
    | .checking previous =>
      if selectionSupported w.options session found then
        if uuid ∈ w.drawn || !PyText.isLowerHex 32 uuid then none
        else some (w.newTask k e r session previous uuid)
      else
        let kept := if session.threadId.isNone then none else some session
        some ((w.ends k e r kept).withEvents (speaksPrevious r previous))
    | _ => none

def admission (w : World) (payload : Payload) (trouble : Trouble) : List Event :=
  if (w.bridge.runs.get? payload.taskId).isNone &&
      ((w.bridge.handle payload trouble).1.runs.get? payload.taskId).isSome then
    [.admitted payload.taskId]
  else []

def serve (w : World) (payload : Payload) (trouble : Trouble) : World :=
  World.withEvents { w with bridge := (w.bridge.handle payload trouble).1 }
    (w.admission payload trouble)

def transmit (w : World) (s : Submission) (delivery : Delivery) : Option (World × Reply) :=
  let sent := w.withEvents [.submitted s]
  match delivery with
  | .unsent =>
    if w.capabilities.taskActions then none
    else some (w, .failed ⟨"capabilities_unavailable", false⟩)
  | .delayed =>
    if !w.capabilities.taskActions then none
    else some ({ sent with delayed := s.payload :: w.delayed }, .unreachable)
  | .lost trouble =>
    if !w.capabilities.taskActions then none
    else some (sent.serve s.payload trouble, .unreachable)
  | .answered trouble =>
    if !w.capabilities.taskActions then none
    else
      let served := sent.serve s.payload trouble
      match (w.bridge.handle s.payload trouble).2 with
      | .ok threadId => some (served, .accepted threadId)
      | .error p =>
        some (served.withEvents (if p.retryable then [] else [.refused s.payload.taskId]),
          .failed p)

/-- `_submit_pending` after its request: the session, or the error it raises. -/
def adopt (session : Session) (pending : Pending) : Reply → Except Problem Session
  | .accepted threadId =>
    if session.threadId.isSome && session.threadId ≠ some threadId then
      .error ⟨"task_target_unavailable", false⟩
    else
      .ok { session with
        threadId := some threadId, pending := some { pending with payload := none } }
  | .failed p => .error p
  | .unreachable => .error ⟨"connection_failed", true⟩

/-- The pending task of an earlier message has been sent again. -/
def resubmitted (sent : World × Reply) (k : Nat) (e : Entity) (r : Request) (session : Session)
    (pending : Pending) : World :=
  match adopt session pending sent.2 with
  | .ok session => sent.1.goesOn k e r session .readingPrevious
  | .error _ => sent.1.ends k e r (some session)

def submitted (sent : World × Reply) (k : Nat) (e : Entity) (r : Request) (session : Session)
    (pending : Pending) (previous : Option Previous) (attempt : Attempt) : World :=
  match adopt session pending sent.2 with
  | .ok session => sent.1.goesOn k e r session (.polling previous)
  | .error p =>
    match sent.2, attempt with
    | .unreachable, .first =>
      -- the identical task is replayed once
      sent.1.goesOn k e r session (.submitting previous .again)
    | _, _ =>
      if p.retryable then sent.1.ends k e r (some session)
      else
        let cleared := { session with pending := none }
        sent.1.ends k e r (if session.threadId.isNone then none else some cleared)

def post (w : World) (k : Nat) (delivery : Delivery) : Option World :=
  match w.active k with
  | none => none
  | some (e, r, session) =>
    match session.pending with
    | none => none
    | some pending =>
      match pending.payload with
      | none => none
      | some payload =>
        let s : Submission :=
          ⟨⟨r.conversation, pending.prompt⟩, (w.log r.conversation).number, payload⟩
        match r.phase with
        | .resubmitting =>
          (w.transmit s delivery).map fun sent => resubmitted sent k e r session pending
        | .submitting previous attempt =>
          (w.transmit s delivery).map fun sent =>
            submitted sent k e r session pending previous attempt
        | _ => none

/-- `_task_answer_payload` takes the answer. -/
def isSpeakable (answer : String) : Bool :=
  PyText.strip answer ≠ "" && answer.length ≤ 4096 &&
    answer.toList.all fun c => 32 ≤ c.toNat || c = '\r' || c = '\n' || c = '\t'

/-- `async_get_task_answer`. -/
def answerOf (w : World) (taskId : String) (reading : Reading) :
    Except Problem (TaskStatus × Option String) :=
  match reading with
  | .fails => .error ⟨"connection_failed", true⟩
  | .arrives =>
    match w.bridge.taskAnswer taskId with
    | .error p => .error p
    | .ok (status, none) => .ok (status, none)
    | .ok (status, some answer) =>
      if isSpeakable answer then .ok (status, some answer)
      else .error ⟨"task_answer_invalid", false⟩

def reads (taskId : String) (status : TaskStatus) (answer : Option String) : List Event :=
  answer.toList.map (.gave taskId) ++ if status.isTerminal then [.settled taskId] else []

/-- `async_get_task_answer` of the previous question returns. -/
def readPrevious (w : World) (k : Nat) (e : Entity) (r : Request) (session : Session)
    (pending : Pending) (status : TaskStatus) (answer : Option String) : World :=
  let w := w.withEvents (reads pending.taskId status answer)
  let cleared := { session with pending := none }
  if !status.isTerminal then w.ends k e r (some session)
  else if r.prompt = pending.prompt then
    (w.ends k e r (some cleared)).withEvents
      (answer.toList.map (.spoke ⟨r.conversation, pending.prompt⟩))
  else w.goesOn k e r cleared (.checking (some ⟨pending.prompt, answer⟩))

/-- A turn of `_wait_for_answer` returns. -/
def poll (w : World) (k : Nat) (e : Entity) (r : Request) (session : Session)
    (pending : Pending) (previous : Option Previous) (status : TaskStatus)
    (answer : Option String) : World :=
  let w := w.withEvents (reads pending.taskId status answer)
  let cleared := { session with pending := none }
  if status = .completed then
    ((w.ends k e r (some cleared)).withEvents (speaksPrevious r previous)).withEvents
      (answer.toList.map (.spoke ⟨r.conversation, r.prompt⟩))
  else if status.isTerminal then (w.ends k e r none).withEvents (speaksPrevious r previous)
  else w.goesOn k e r session (.polling previous)

def read (w : World) (k : Nat) (reading : Reading) : Option World :=
  match w.active k with
  | none => none
  | some (e, r, session) =>
    match session.pending with
    | none => none
    | some pending =>
      match r.phase, w.answerOf pending.taskId reading with
      -- admission has succeeded, so no error of the reading clears the task
      | .readingPrevious, .error _ => some (w.ends k e r (some session))
      | .polling _, .error _ => some (w.ends k e r (some session))
      | .readingPrevious, .ok outcome =>
        some (w.readPrevious k e r session pending outcome.1 outcome.2)
      | .polling previous, .ok outcome =>
        some (w.poll k e r session pending previous outcome.1 outcome.2)
      | _, _ => none

def expire (w : World) (k : Nat) : Option World :=
  match w.active k with
  | none => none
  | some (e, r, session) =>
    match r.phase with
    | .polling previous =>
      some ((w.ends k e r (some session)).withEvents (speaksPrevious r previous))
    | _ => none

def isHandling (w : World) (conversation : String) : Bool :=
  w.entities.any fun e => e.request.any fun r => r.conversation = conversation

def next (w : World) : Label → Option World
  | .message m => w.receive m
  | .check k found uuid => w.check k found uuid
  | .post k delivery => w.post k delivery
  | .read k reading => w.read k reading
  | .expire k => w.expire k
  | .arrive index trouble =>
    match w.delayed[index]? with
    | none => none
    | some payload =>
      some (World.serve { w with delayed := w.delayed.eraseIdx index } payload trouble)
  | .bridge change => some { w with bridge := w.bridge.apply change }
  | .configure options => some { w with options := options }
  | .reload options =>
    some { w with options := options, entities := Entity.fresh :: w.entities }
  | .negotiate capabilities => some { w with capabilities := capabilities }
  | .newLog conversation =>
    -- a log is not dropped while one of its messages is handled
    if w.isHandling conversation then none
    else some { w with
      logs := w.logs.set conversation ⟨(w.log conversation).number + 1, false⟩ }
  | .otherAnswer conversation => some (w.markAnswered conversation)

end World

end CodexBridge.Assist
