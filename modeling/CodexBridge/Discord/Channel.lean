import CodexBridge.Library.Dict
import CodexBridge.Library.Runs
import CodexBridge.Discord.Policy
import Mathlib.Data.List.Sort

/-! # The Discord channel

The private journal (`DiscordState`), the manager that owns it and the task runtime it
admits work to. One lock serialises the commands, the result loop and the policy changes,
so a step is what happens between two durable writes of its holder; a crash can fall
between any two of them.
-/

namespace CodexBridge.Discord

open Effect

/-! ## The journal -/

inductive Delivery where
  | pending | suppressed | failed | attempted | delivered
  deriving DecidableEq

/-- A row of `requests`, under its interaction id. -/
structure Request where
  epoch : Nat
  userId : String
  guildId : Option String
  channelId : String
  promptDigest : String
  taskId : String
  threadId : Option String
  runId : Option String
  delivery : Delivery
  messageId : Option String
  deriving DecidableEq

/-- `if row["run_id"]`. -/
def Request.hasRun (row : Request) : Bool := row.runId.any (· ≠ "")

structure PolicyRow where
  epoch : Nat
  definition : Policy
  botToken : Option String
  deriving DecidableEq

structure DiscordState where
  policy : PolicyRow
  requests : Dict String Request
  /-- `dm_threads`: the epoch and the thread, under the user. -/
  dmThreads : Dict String (Nat × String)

/-- The hashes of `claim` and `task_id_for`. -/
structure Settings where
  digest : String → String
  taskIdFor : String → String

@[irreducible] def maxRequests : Nat := 20000

def pageSize : Nat := 100

namespace DiscordState

def initial : DiscordState := ⟨⟨0, .closed, none⟩, .empty, .empty⟩

/-- `validate_configuration`; the result is the clean definition. -/
def validateConfiguration (s : DiscordState) (definition : List (String × Json))
    (token : Option String) : Except DiscordChannelError Policy := do
  let clean ← validatePolicy definition
  refuse (∃ t ∈ token, isToken t = false) "The bot credential is invalid."
  refuse (clean.enabled = true ∧ token = none ∧ s.policy.botToken = none)
    "Add a bot credential before enabling Discord."
  .ok clean

/-- `UPDATE requests SET delivery='suppressed' WHERE delivery='pending'`. -/
def suppressPending (s : DiscordState) : Dict String Request :=
  s.requests.mapValues fun _ row =>
    if row.delivery = .pending then { row with delivery := .suppressed } else row

def configure (s : DiscordState) (clean : Policy) (token : Option String) : DiscordState where
  policy := ⟨s.policy.epoch + 1, clean, token.or s.policy.botToken⟩
  requests := s.suppressPending
  dmThreads := .empty

def revoke (s : DiscordState) : DiscordState where
  policy := ⟨s.policy.epoch + 1, .closed, none⟩
  requests := s.suppressPending
  dmThreads := .empty

/-- `(fresh, row)`, and the journal with the row. -/
def claim (env : Settings) (s : DiscordState) (interactionId userId : String)
    (guildId : Option String) (channelId prompt : String) :
    Except DiscordChannelError (Bool × Request × DiscordState) := do
  refuse (isSnowflake interactionId = false) "A Discord identifier is invalid."
  refuse (permitted s.policy.definition userId guildId channelId false = false)
    "Discord access is not allowed here."
  match s.requests.get? interactionId with
  | some row =>
    refuse ((row.userId, row.guildId, row.channelId, row.promptDigest) ≠
        (userId, guildId, channelId, env.digest prompt))
      "The Discord interaction changed during replay."
    .ok (false, row, s)
  | none =>
    refuse (maxRequests ≤ s.requests.entries.length) "Discord request capacity is full."
    -- `task_id` is unique, so the insertion fails where the id is taken.
    refuse (∃ e ∈ s.requests.entries, e.2.taskId = env.taskIdFor interactionId)
      "UNIQUE constraint failed: requests.task_id"
    let row : Request := ⟨s.policy.epoch, userId, guildId, channelId, env.digest prompt,
      env.taskIdFor interactionId, none, none, .pending, none⟩
    .ok (true, row, { s with requests := s.requests.set interactionId row })

def recordRun (s : DiscordState) (interactionId threadId runId : String) : DiscordState :=
  { s with requests := s.requests.update interactionId fun row =>
      if row.delivery = .pending then
        { row with threadId := some threadId, runId := some runId }
      else row }

def dmThread (s : DiscordState) (userId : String) : Option String :=
  (s.dmThreads.get? userId).bind fun found =>
    if found.1 = s.policy.epoch then some found.2 else none

def setDmThread (s : DiscordState) (userId threadId : String) : DiscordState :=
  { s with dmThreads := s.dmThreads.set userId (s.policy.epoch, threadId) }

def clearDmThread (s : DiscordState) (userId threadId : String) : DiscordState :=
  { s with dmThreads := s.dmThreads.filter fun user found =>
      ¬ (user = userId ∧ found = (s.policy.epoch, threadId)) }

def select (s : DiscordState) (p : String → Request → Bool) : List (String × Request) :=
  (s.requests.filter p).entries.insertionSort fun a b => a.1 ≤ b.1

def pending (s : DiscordState) : List (String × Request) :=
  (s.select fun _ row => row.delivery = .pending).take pageSize

def unrecorded (s : DiscordState) (after : String) : List (String × Request) :=
  (s.select fun id row => row.delivery = .pending && row.runId = none && after < id).take pageSize

def unfinished (s : DiscordState) : List (String × Request) :=
  (s.requests.filter fun _ row => row.delivery = .pending).entries

def pendingForUser (s : DiscordState) (userId : String) (guildId : Option String)
    (channelId : String) : List (String × Request) :=
  (s.select fun _ row => row.userId = userId && row.guildId = guildId &&
    row.channelId = channelId && row.epoch = s.policy.epoch && row.delivery = .pending &&
    row.runId ≠ none).reverse

def mark (s : DiscordState) (interactionId : String) (expected next : Delivery)
    (messageId : Option String) : Bool × DiscordState :=
  ((s.requests.get? interactionId).any fun row => row.delivery = expected,
    { s with requests := s.requests.update interactionId fun row =>
        if row.delivery = expected then
          { row with delivery := next, messageId := messageId }
        else row })

end DiscordState

inductive TaskStatus where
  | live | completed | failed | cancelled | interrupted
  deriving DecidableEq

structure Task where
  threadId : String
  runId : String
  status : TaskStatus
  forgotten : Bool

inductive Command where
  | codex (prompt : String)
  | codexCancel
  deriving DecidableEq

structure Interaction where
  id : String
  userId : String
  isBot : Bool
  guildId : Option String
  channelId : String
  isDirect : Bool
  command : Command
  deriving DecidableEq

/-- What the loop over the claims without a receipt belongs to. -/
inductive Purpose where
  | starting | polling
  deriving DecidableEq

/-- A policy change between its read of the unfinished requests and its commit. -/
inductive Change where
  | configure (clean : Policy) (token : Option String)
  | revoke
  deriving DecidableEq

inductive Holder where
  | free
  /-- `_ask` with a fresh claim, and the thread to continue. -/
  | admitting (id : String) (row : Request) (thread : Option String)
  | recording (id : String) (row : Request) (threadId runId : String)
  | linking (userId threadId : String)
  /-- `_cancel_command`. -/
  | choosing (rows : List (String × Request))
  /-- `_recover_claims`. -/
  | recovering (rows : List (String × Request)) (purpose : Purpose)
  | relinking (userId threadId : String) (rows : List (String × Request)) (purpose : Purpose)
  | delivering (rows : List (String × Request))
  /-- `_post_result`; `again` after a response that asked for patience. -/
  | posting (id : String) (again : Bool)
  | posted (id messageId : String)
  | changing (change : Change) (rows : List (String × Request))
  /-- `_cancel_pending`; `restart` for `configure`. -/
  | cancelling (rows : List (String × Request)) (restart : Bool)
  deriving DecidableEq

inductive Event where
  | admitted (id : String) (epoch : Nat)
  /-- The mark before `_post_result`. -/
  | attempted (id : String)
  | posted (id : String) (row : Request) (policy : PolicyRow)
  | rateLimited (id : String)
  | cancelRequested (id : String)
  deriving DecidableEq

structure Channel where
  state : DiscordState
  tasks : Dict String Task
  holder : Holder
  asking : List Interaction
  running : Bool
  client : Bool
  connected : Bool
  polling : Bool
  /-- The result loop found the gateway connected and waits for the lock. -/
  waiting : Bool
  recoverAfter : String
  trace : List Event

/-! ## Steps -/

/-- What a call into the task runtime does, beside failing. -/
inductive Admission where
  | accepted (runId : String)
  | lost (runId : String)
  | targetMissing

inductive Answer where
  | answered
  | unavailable

inductive Response where
  | accepted (messageId : String)
  /-- Status 429, with a usable `Retry-After` or not. -/
  | rateLimited (retry : Bool)
  | refused

inductive Step where
  | start
  | connect
  | disconnect
  | interact (i : Interaction)
  | serve (i : Interaction)
  | admission (answer : Admission)
  | record
  | link
  | choose (answer : Answer)
  | wake
  | poll
  | recover (answer : Answer)
  | relink (written : Bool)
  | deliver (answer : Answer)
  | post (response : Response)
  | receipt
  | configure (definition : List (String × Json)) (token : Option String)
  | revoke
  | commit
  | cancel
  | proceed
  | fault
  | close
  | crash
  | taskEnds (taskId : String) (status : TaskStatus)
  | forget (taskId : String)

def identity (policy : Policy) (i : Interaction) : Bool :=
  !i.isBot && (i.guildId.isSome || i.isDirect) &&
    permitted policy i.userId i.guildId i.channelId false

/-- The checks `_ask` makes on the prompt before it defers the response. -/
def Command.isAcceptable : Command → Bool
  | .codex prompt =>
    (prompt.toList.any fun c => !PyText.isSpace c) && PyText.utf8Length prompt ≤ 4000
  | .codexCancel => true

namespace Channel

def initial : Channel where
  state := .initial
  tasks := .empty
  holder := .free
  asking := []
  running := false
  client := false
  connected := false
  polling := false
  waiting := false
  recoverAfter := ""
  trace := []

/-- `get_task`: nothing is a 404. -/
def getTask (c : Channel) (taskId : String) : Option Task :=
  (c.tasks.get? taskId).filter fun t => !t.forgotten

/-- A process that ended keeps the journal and the runtime's own state. -/
def dropProcess (c : Channel) : Channel :=
  { c with
    holder := .free
    asking := []
    running := false
    client := false
    connected := false
    polling := false
    waiting := false
    recoverAfter := "" }

def startLocked (c : Channel) : Channel :=
  { c with client := c.client || (c.state.policy.definition.enabled &&
      c.state.policy.botToken.any (· ≠ "")) }

def stopGatewayLocked (c : Channel) : Channel :=
  { c with client := false, connected := false }

/-- The head of `_recover_claims`. -/
def recoverClaims (c : Channel) (purpose : Purpose) : Channel :=
  let rows := c.state.unrecorded c.recoverAfter
  { c with
    recoverAfter :=
      if rows.length = pageSize then (rows.getLast?.map Prod.fst).getD "" else ""
    holder := .recovering rows purpose }

/-- The locked section of a command, up to its first wait. -/
def serve (env : Settings) (c : Channel) (i : Interaction) : Channel :=
  if identity c.state.policy.definition i = false then c
  else match i.command with
    | .codexCancel =>
      let rows := c.state.pendingForUser i.userId i.guildId i.channelId
      { c with holder := .choosing rows }
    | .codex prompt =>
      match c.state.claim env i.id i.userId i.guildId i.channelId prompt with
      | .ok (true, row, state) =>
        { c with
          state := state
          holder := .admitting i.id row
            (if i.guildId = none then state.dmThread i.userId else none) }
      | _ => c

/-- The run the runtime has under a task id after an admission: one that is known is
replayed. -/
def admitted (c : Channel) (id : String) (row : Request) (threadId runId : String) :
    Task × Channel :=
  match c.getTask row.taskId with
  | some t => (t, c)
  | none =>
    let t : Task := ⟨threadId, runId, .live, false⟩
    (t, { c with
      tasks := c.tasks.set row.taskId t
      trace := .admitted id row.epoch :: c.trace })

/-- `start_task` makes the thread of its task, `continue_task` uses the one given. -/
def targetThread (row : Request) (thread : Option String) : String :=
  thread.getD ("thr_task_" ++ row.taskId)

def takeAdmission (c : Channel) (id : String) (row : Request) (thread : Option String) :
    Admission → Option Channel
  | .accepted runId =>
    let result := c.admitted id row (targetThread row thread) runId
    some { result.2 with holder := .recording id row result.1.threadId result.1.runId }
  | .lost runId =>
    let c' := (c.admitted id row (targetThread row thread) runId).2
    some { c' with holder := .free }
  | .targetMissing => thread.map fun threadId => { c with
      state := c.state.clearDmThread row.userId threadId
      holder := .free }

/-- One turn of `_recover_claims`. -/
def recoverRow (c : Channel) (id : String) (row : Request) (rest : List (String × Request))
    (purpose : Purpose) : Answer → Channel
  | .unavailable => { c with holder := .recovering rest purpose }
  | .answered =>
    match c.getTask row.taskId with
    | none => { c with
        state := (c.state.mark id .pending .failed none).2
        holder := .recovering rest purpose }
    | some t => { c with
        state := c.state.recordRun id t.threadId t.runId
        holder := if row.guildId = none then .relinking row.userId t.threadId rest purpose
          else .recovering rest purpose }

/-- The test at the head of `_deliver`. -/
def isFenced (policy : PolicyRow) (row : Request) : Bool :=
  row.epoch ≠ policy.epoch || !(policy.botToken.any (· ≠ "")) ||
    !permitted policy.definition row.userId row.guildId row.channelId false

/-- `_deliver`, up to the post; the loop ends after the first row that is not left alone. -/
def deliverRow (c : Channel) (id : String) (row : Request) (rest : List (String × Request))
    (answer : Answer) : Channel :=
  if row.runId = none then { c with holder := .delivering rest }
  else if isFenced c.state.policy row then
    { c with state := (c.state.mark id .pending .suppressed none).2, holder := .free }
  else match answer with
    | .unavailable => { c with holder := .delivering rest }
    | .answered =>
      match c.getTask row.taskId with
      | none => { c with holder := .delivering rest }
      | some t =>
        if t.status = .live then { c with holder := .delivering rest }
        else
          let result := c.state.mark id .pending .attempted none
          if result.1 then
            { c with
              state := result.2
              holder := .posting id false
              trace := .attempted id :: c.trace }
          else { c with state := result.2, holder := .free }

/-- One request of `_post_result`. -/
def takeResponse (c : Channel) (id : String) (again : Bool) (row : Request) : Response → Channel
  | .accepted messageId => { c with
      holder := if isSnowflake messageId then .posted id messageId else .free
      trace := .posted id row c.state.policy :: c.trace }
  | .rateLimited retry => { c with
      holder := if retry && !again then .posting id true else .free
      trace := .rateLimited id :: .posted id row c.state.policy :: c.trace }
  | .refused => { c with
      holder := .free
      trace := .posted id row c.state.policy :: c.trace }

/-- `policy` and the rows in one transaction. -/
def commitChange (c : Channel) (rows : List (String × Request)) : Change → Channel
  | .configure clean token => { c with
      state := c.state.configure clean token
      holder := .cancelling rows true }
  | .revoke => { c with
      state := c.state.revoke
      holder := .cancelling rows false }

/-- A loop without rows ends. -/
def proceed (c : Channel) : Option Channel :=
  match c.holder with
  | .choosing [] => some { c with holder := .free }
  | .recovering [] .starting =>
    some { c.startLocked with holder := .free, polling := true }
  | .recovering [] .polling => some { c with holder := .delivering c.state.pending }
  | .delivering [] => some { c with holder := .free }
  | .cancelling [] restart =>
    let c' := if restart && c.running then c.startLocked else c
    some { c' with holder := .free }
  | _ => none

/-- An exception outside a handler: the lock is released, and the result loop ends with it. -/
def fault (c : Channel) : Option Channel :=
  match c.holder with
  | .free => none
  | .cancelling _ _ => none
  | .admitting _ _ _ => some { c with holder := .free }
  | .recording _ _ _ _ => some { c with holder := .free }
  | .linking _ _ => some { c with holder := .free }
  | .choosing _ => some { c with holder := .free }
  | .changing _ _ => some { c with holder := .free }
  | .recovering _ _ => some { c with holder := .free, polling := false }
  | .relinking _ _ _ _ => some { c with holder := .free, polling := false }
  | .delivering _ => some { c with holder := .free, polling := false }
  | .posting _ _ => some { c with holder := .free, polling := false }
  | .posted _ _ => some { c with holder := .free, polling := false }

def next (env : Settings) (c : Channel) : Step → Option Channel
  | .start =>
    if c.holder = .free ∧ c.running = false then
      some (({ c with running := true } : Channel).recoverClaims .starting)
    else none
  | .connect => if c.client then some { c with connected := true } else none
  | .disconnect => some { c with connected := false }
  | .interact i =>
    if c.client ∧ identity c.state.policy.definition i ∧ i.command.isAcceptable then
      some { c with asking := i :: c.asking }
    else none
  | .serve i =>
    if c.holder = .free ∧ i ∈ c.asking then
      some (({ c with asking := c.asking.erase i } : Channel).serve env i)
    else none
  | .admission answer =>
    match c.holder with
    | .admitting id row thread => c.takeAdmission id row thread answer
    | _ => none
  | .record =>
    match c.holder with
    | .recording id row threadId runId => some { c with
        state := c.state.recordRun id threadId runId
        holder := if row.guildId = none then .linking row.userId threadId else .free }
    | _ => none
  | .link =>
    match c.holder with
    | .linking userId threadId => some { c with
        state := c.state.setDmThread userId threadId
        holder := .free }
    | _ => none
  | .choose answer =>
    match c.holder with
    | .choosing ((id, row) :: rest) =>
      match answer, c.getTask row.taskId with
      | .answered, some t =>
        if t.status = .live then
          some { c with holder := .free, trace := .cancelRequested id :: c.trace }
        else some { c with holder := .choosing rest }
      | _, _ => some { c with holder := .free }
    | _ => none
  | .wake => if c.polling ∧ c.connected then some { c with waiting := true } else none
  | .poll =>
    if c.holder = .free ∧ c.waiting then
      some (({ c with waiting := false } : Channel).recoverClaims .polling)
    else none
  | .recover answer =>
    match c.holder with
    | .recovering ((id, row) :: rest) purpose => some (c.recoverRow id row rest purpose answer)
    | _ => none
  | .relink written =>
    match c.holder with
    | .relinking userId threadId rest purpose => some { c with
        state := if written then c.state.setDmThread userId threadId else c.state
        holder := .recovering rest purpose }
    | _ => none
  | .deliver answer =>
    match c.holder with
    | .delivering ((id, row) :: rest) => some (c.deliverRow id row rest answer)
    | _ => none
  | .post response =>
    match c.holder with
    | .posting id again =>
      (c.state.requests.get? id).map fun row => c.takeResponse id again row response
    | _ => none
  | .receipt =>
    match c.holder with
    | .posted id messageId => some { c with
        state := (c.state.mark id .attempted .delivered (some messageId)).2
        holder := .free }
    | _ => none
  | .configure definition token =>
    if c.holder = .free then
      match c.state.validateConfiguration definition token with
      | .ok clean => some { c.stopGatewayLocked with
          holder := .changing (.configure clean token) c.state.unfinished }
      | .error _ => some c
    else none
  | .revoke =>
    if c.holder = .free then
      some { c.stopGatewayLocked with holder := .changing .revoke c.state.unfinished }
    else none
  | .commit =>
    match c.holder with
    | .changing change rows => some (c.commitChange rows change)
    | _ => none
  | .cancel =>
    match c.holder with
    | .cancelling ((id, row) :: rest) restart => some { c with
        holder := .cancelling rest restart
        trace := if row.hasRun then .cancelRequested id :: c.trace else c.trace }
    | _ => none
  | .proceed => c.proceed
  | .fault => c.fault
  | .close => if c.holder = .free then some c.dropProcess else none
  | .crash => some c.dropProcess
  | .taskEnds taskId status =>
    if status = .live then none
    else some { c with tasks := c.tasks.update taskId fun t =>
      if t.status = .live then { t with status := status } else t }
  | .forget taskId =>
    some { c with tasks := c.tasks.update taskId fun t =>
      if t.status = .live then t else { t with forgotten := true } }

end Channel

end CodexBridge.Discord
