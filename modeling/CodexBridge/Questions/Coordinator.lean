import CodexBridge.Library.Effect
import CodexBridge.Library.Runs
import CodexBridge.Questions.Ledger

/-! # The coordinator of question notifications

A refresh compares the pending questions with the ledger, and announces them on the selected
devices. A reply from a device is sent to the Bridge once the ledger says that it was attempted.

Each `await` takes one moment from a script: what came of it, and what the surroundings are then.
-/

namespace CodexBridge.Questions

open Effect

/-! ## Questions -/

/-- What Home Assistant and Python decide about texts. -/
structure Host where
  expiry : String → Option Nat
  printable : String → Bool
  /-- `_SENSITIVE_PREVIEW` is found. -/
  sensitive : String → Bool
  digest : List Json → String
  /-- The values of `secrets`, in the order in which they are drawn. -/
  token : Nat → String
  clientRequestId : Nat → String

def get (value : Json) (key : String) : Json :=
  match value with
  | .obj fields => field fields key
  | _ => .null

def isMapping : Json → Bool
  | .obj _ => true
  | _ => false

def items? : Json → Option (List Json)
  | .arr items => some items
  | _ => none

section

variable (host : Host)

def isTextValue (value : Json) (maximum : Nat) : Bool := value.str?.any fun s => isText s maximum

def isIdValue (value : Json) : Bool := value.str?.any isId

/-- `_expiry`. -/
def expiryValue (value : Json) : Option Nat := value.str?.bind (expiryOf host.expiry)

def validInteraction (value : Json) : Bool :=
  isIdValue (get value "interaction_id") && isIdValue (get value "thread_id") &&
    decide (get value "kind" = .str "user_input") &&
    (match value with
    | .obj fields => (Json.field? fields "status").all (· = .str "pending")
    | _ => false) &&
    ((items? (get value "allowed_actions")).any fun actions => actions.contains (.str "answer")) &&
    (expiryValue host (get value "expires_at")).isSome && isMapping (get value "display")

/-- `str.isprintable()` of a text. -/
def isPrintable (value : Json) : Bool := value.str?.any host.printable

def optionTexts (value : Json) : Option (List String) :=
  if isMapping value then
    ["label", "description"].foldlM
      (fun texts key =>
        match get value key with
        | .null => some texts
        | .str s => if s.length ≤ 512 ∧ host.printable s then some (texts ++ [s]) else none
        | _ => none) []
  else none

/-- `question.get("options", [])`. -/
def optionsOf (question : Json) : Json :=
  match question with
  | .obj fields => (Json.field? fields "options").getD (.arr [])
  | _ => .null

def safePreview (question : Json) : Bool :=
  if (get question "isSecret").truthy || (get question "is_secret").truthy ||
      !isTextValue (get question "header") 160 || !isPrintable host (get question "header") ||
      !isTextValue (get question "prompt") 2048 || !isPrintable host (get question "prompt") then
    false
  else
    match items? (optionsOf question) with
    | some options =>
      if 32 < options.length then false
      else
        match options.mapM (optionTexts host) with
        | some texts =>
          !(((get question "header").str?.toList ++ (get question "prompt").str?.toList ++
            texts.flatten).any host.sensitive)
        | none => false
    | none => false

def questionsOf (value : Json) : Option (List Json) :=
  items? (get (get value "display") "questions")

def question? (value : Json) : Option Json :=
  match questionsOf value with
  | some [question] =>
    if isMapping question && isTextValue (get question "question_id") 128 &&
        decide (get question "multiple" = .bool false) && safePreview host question then
      some question
    else none
  | _ => none

def choiceLabels (question : Json) : Option (List String) :=
  match items? (get question "options") with
  | some options =>
    if 1 ≤ options.length ∧ options.length ≤ 2 then
      options.mapM fun option =>
        if isMapping option && isTextValue (get option "label") 160 then
          (get option "label").str?
        else none
    else none
  | none => none

def questionFingerprint (value : Json) : Option String :=
  match questionsOf value with
  | some questions => if 32 < questions.length then none else some (host.digest questions)
  | none => none

def questionIdOf (item : Json) : String :=
  match question? host item with
  | some question => ((get question "question_id").str?).getD ""
  | none => "__open_chat_only__"

def textOf (item : Json) (key : String) : String := ((get item key).str?).getD ""

def sameQuestion (entry : LedgerEntry) (current : Json) : Bool :=
  let question := question? host current
  decide (question.isSome ≠ entry.openChatOnly) &&
    decide (get current "thread_id" = .str entry.threadId) &&
    (entry.openChatOnly || decide (question.map (get · "question_id") =
      some (.str entry.questionId))) &&
    decide (get current "expires_at" = .str entry.expiresAt) &&
    decide (questionFingerprint host current = some entry.questionFingerprint)

end

/-! ## Devices -/

/-- `QuestionNotificationRecipient`. Its registration and its service match the patterns of
`async_resolve_question_recipients`, and the ids of Home Assistant are short. -/
structure Recipient where
  registrationId : String
  deviceId : String
  userId : String
  service : String
  inlineReply : Bool
  valid : bindingValid registrationId deviceId userId service = true

def recipientMatches (saved : Destination) (r : Recipient) : Bool :=
  decide (r.inlineReply = saved.inlineReply) &&
    decide (saved.registrationId = r.registrationId) && decide (saved.deviceId = r.deviceId) &&
    decide (saved.userId = r.userId) && decide (saved.service = r.service)

/-- `question_notification_settings`. -/
structure Settings where
  enabled : Bool
  persistent : Bool
  preview : Bool
  mobileTargets : List String

/-- What the coordinator reads without waiting. -/
structure Surroundings where
  settings : Settings
  /-- `supports_capability("interactions_v2")`. -/
  supported : Bool
  notify : List String
  persistentNotification : List String
  now : Nat

/-- What can come of an `await`; `crashed` is the end of the process. -/
inductive Outcome
  | returned
  | raised
  | cancelled
  | crashed
deriving DecidableEq

/-- One `await`: what came of it, what the surroundings are then, and whether `async_close` was
called meanwhile. A save may reach the store even where it does not return. -/
structure Moment where
  outcome : Outcome
  surroundings : Option Surroundings
  closes : Bool
  stores : Bool
  response : Json
  recipients : List Recipient

/-- A call of `async_answer_interaction`. -/
structure Answer where
  interactionId : String
  questionId : String
  clientRequestId : String

/-- The coordinator with its store. What was passed to the store and to the Bridge is history. -/
structure State where
  entries : List LedgerEntry
  loaded : Bool
  closed : Bool
  listening : Bool
  crashed : Bool
  surroundings : Surroundings
  script : List Moment
  stored : Json
  drawn : Nat
  passed : List Json
  answers : List Answer

/-- Why a routine ends before its end. -/
inductive Stop
  | returned
  | cancelled
  | crashed
deriving DecidableEq

abbrev Routine (α : Type) : Type := Action State Stop α

def routine (body : Routine Unit) : Routine Unit :=
  attempt body fun stop => if stop = .returned then pure () else raise stop

def leave {α : Type} : Routine α := raise .returned

def Moment.quiet : Moment := ⟨.returned, none, false, true, .null, []⟩

/-- The surroundings after an `await`. -/
def State.after (s : State) (m : Moment) : State :=
  { s with
    script := s.script.tail
    surroundings := m.surroundings.getD s.surroundings
    closed := s.closed || m.closes
    listening := s.listening && !m.closes }

/-- An `await`. -/
def pause : Routine Moment := fun s =>
  let m := s.script.headD .quiet
  match m.outcome with
  | .cancelled => (.error .cancelled, s.after m)
  | .crashed => (.error .crashed, s.after m)
  | .returned | .raised => (.ok m, s.after m)

def persist : Routine Bool := fun s =>
  if s.closed ∨ ¬ s.loaded then (.ok false, s)
  else
    let value := ledgerValue (lastEntries s.entries)
    let m := s.script.headD .quiet
    let s' := { s.after m with
      passed := s.passed ++ [value]
      stored := if m.outcome = .returned ∨ m.stores then value else s.stored }
    match m.outcome with
    | .returned => (.ok true, s')
    | .raised => (.ok false, s')
    | .cancelled => (.error .cancelled, s')
    | .crashed => (.error .crashed, s')

def setEntry (id : String) (f : LedgerEntry → LedgerEntry) : Routine Unit :=
  modify fun s =>
    { s with entries := s.entries.map fun e => if e.interactionId = id then f e else e }

def removeEntry (id : String) : Routine Unit :=
  modify fun s => { s with entries := s.entries.filter (·.interactionId ≠ id) }

def findEntry (s : State) (id : String) : Option LedgerEntry :=
  s.entries.find? (·.interactionId = id)

/-- `_destination`. -/
def findDestination (e : LedgerEntry) (registrationId : String) : Option Destination :=
  e.destinations.find? (·.registrationId = registrationId)

def setAttempted (id registrationId : String) (attempted : Bool) : Routine Unit :=
  setEntry id fun e => { e with destinations := e.destinations.map fun d =>
    if d.registrationId = registrationId then { d with attempted } else d }

def addDestination (id : String) (d : Destination) : Routine Unit :=
  setEntry id fun e => { e with destinations := e.destinations ++ [d] }

def removeDestination (id registrationId : String) : Routine Unit :=
  setEntry id fun e =>
    { e with destinations := e.destinations.eraseP (·.registrationId = registrationId) }

def clearMobile (d : Destination) : Routine Bool := do
  if ¬ d.attempted then pure true
  else
    let notify ← read (·.surroundings.notify)
    if d.service ∉ notify then pure false
    else
      let m ← pause
      if m.outcome = .raised then pure false
      else
        match m.recipients.find? (·.registrationId = d.registrationId) with
        | none => pure false
        | some current =>
          if ¬ recipientMatches d current then pure true
          else
            let called ← pause
            pure (decide (called.outcome ≠ .raised))

def clearPersistent : Routine Bool := do
  let services ← read (·.surroundings.persistentNotification)
  if "dismiss" ∉ services then pure false
  else
    let m ← pause
    pure (decide (m.outcome ≠ .raised))

/-- `_clear_entry`; its result is read by a removal only. -/
def clearEntry (e : LedgerEntry) : Routine Unit := do
  forEach e.destinations fun d => do
    let _ ← clearMobile d
    pure ()
  if e.persistent then
    let _ ← clearPersistent
    pure ()

def deliverPersistent : Routine Unit := do
  let services ← read (·.surroundings.persistentNotification)
  if "create" ∈ services then
    let _ ← pause
    pure ()

/-- `_deliver_mobile`, without the contents of the message. -/
def deliverMobile (id : String) (registrationId service : String) : Routine Unit := do
  let notify ← read (·.surroundings.notify)
  setAttempted id registrationId true
  let saved ← persist
  if ¬ saved then setAttempted id registrationId false
  else
    let closed ← read (·.closed)
    if service ∈ notify ∧ ¬ closed then
      let _ ← pause
      pure ()

/-! ## Refreshing -/

section

variable (host : Host)

/-- The reply actions of `_make_destination`, before a device without replies loses them. -/
def makeActions (drawn : Nat) (question : Json) (preview : Bool) : List ActionRow × Nat :=
  let shown := preview && safePreview host question
  let sensitive := preview && !shown
  let labels := if shown then choiceLabels question else none
  let count := (labels.map List.length).getD 0
  let choices := (List.range count).map fun k =>
    ⟨host.token (drawn + k), host.clientRequestId (drawn + k), .choice, some (.int k)⟩
  if get question "allow_free_text" = .bool true ∧ ¬ sensitive then
    -- Companion notifications permit at most three Android actions
    let kept := if 1 < choices.length then choices.take 1 else choices
    (kept ++ [⟨host.token (drawn + count), host.clientRequestId (drawn + count), .text, none⟩],
      drawn + count + 1)
  else (choices, drawn + count)

/-- `_make_destination`, with how many values have been drawn then. -/
def makeDestination (drawn : Nat) (r : Recipient) (question : Json) (preview : Bool) :
    Destination × Nat :=
  let made := makeActions host drawn question preview
  ({ registrationId := r.registrationId
     deviceId := r.deviceId
     userId := r.userId
     service := r.service
     inlineReply := r.inlineReply
     actions := if r.inlineReply then made.1 else []
     attempted := false }, made.2)

def newEntry (id : String) (item : Json) (fingerprint : String) : LedgerEntry where
  interactionId := id
  threadId := textOf item "thread_id"
  questionId := questionIdOf host item
  questionFingerprint := fingerprint
  expiresAt := textOf item "expires_at"
  destinations := []
  persistent := false
  attempted := false
  openChatOnly := (question? host item).isNone

/-- `pending[id] = item`. -/
def setPending (pending : List (String × Json)) (id : String) (item : Json) :
    List (String × Json) :=
  if pending.any (·.1 = id) then pending.map fun p => if p.1 = id then (id, item) else p
  else pending ++ [(id, item)]

def pendingOf (now : Nat) (items : List Json) : List (String × Json) :=
  items.foldl
    (fun pending item =>
      if validInteraction host item ∧
          (expiryValue host (get item "expires_at")).any fun deadline => now < deadline then
        setPending pending (textOf item "interaction_id") item
      else pending) []

def pendingItem (pending : List (String × Json)) (id : String) : Option Json :=
  (pending.find? (·.1 = id)).map Prod.snd

def dropStale (pending : List (String × Json)) (entries : List LedgerEntry) : Routine Unit :=
  forEach entries fun e =>
    if (pendingItem pending e.interactionId).any fun item => sameQuestion host e item then pure ()
    else do
      clearEntry e
      removeEntry e.interactionId

/-- The notice of Home Assistant itself. -/
def refreshPersistent (id : String) (wanted : Bool) : Routine Unit := do
  let e ← read (findEntry · id)
  if wanted ∧ ¬ e.any (·.persistent) then
    setEntry id fun e => { e with persistent := true }
    let saved ← persist
    if saved then
      let closed ← read (·.closed)
      if ¬ closed then deliverPersistent
    else setEntry id fun e => { e with persistent := false }
  else if ¬ wanted ∧ e.any (·.persistent) then
    let _ ← clearPersistent
    setEntry id fun e => { e with persistent := false }

def addRecipient (id : String) (question : Option Json) (preview : Bool) (r : Recipient) :
    Routine Unit := do
  let drawn ← read (·.drawn)
  let made := makeDestination host drawn r (question.getD (.obj [])) preview
  modify fun s => { s with drawn := made.2 }
  addDestination id made.1
  let _ ← persist
  let closed ← read (·.closed)
  if ¬ closed then deliverMobile id r.registrationId r.service

def refreshRecipient (id : String) (question : Option Json) (preview : Bool) (r : Recipient) :
    Routine Unit := do
  let closed ← read (·.closed)
  if closed then leave
  else
    let e ← read (findEntry · id)
    match e.bind fun e => findDestination e r.registrationId with
    | none => addRecipient host id question preview r
    | some d =>
      if ¬ recipientMatches d r then
        let _ ← clearMobile d
        removeDestination id r.registrationId
        addRecipient host id question preview r
      else if ¬ d.attempted then deliverMobile id r.registrationId d.service

def dropDestinations (id : String) (wanted : List Recipient) : Routine Unit := do
  let e ← read (findEntry · id)
  forEach ((e.map (·.destinations)).getD []) fun d =>
    if wanted.any (·.registrationId = d.registrationId) then pure ()
    else do
      let _ ← clearMobile d
      removeDestination id d.registrationId

def evict : Routine Unit := do
  let entries ← read (·.entries)
  match entries with
  | oldest :: rest =>
    if maxInteractions < entries.length then do
      modify fun s => { s with entries := rest }
      clearEntry oldest
  | [] => pure ()

structure Plan where
  persistent : Bool
  preview : Bool
  wanted : List Recipient

def ensureEntry (id : String) (item : Json) (fingerprint : String) : Routine Unit := do
  let existing ← read (findEntry · id)
  match existing with
  | none => modify fun s => { s with entries := s.entries ++ [newEntry host id item fingerprint] }
  | some e =>
    if e.openChatOnly = (question? host item).isNone then pure ()
    else do
      clearEntry e
      removeEntry id
      modify fun s => { s with entries := s.entries ++ [newEntry host id item fingerprint] }

def refreshQuestion (plan : Plan) (pending : String × Json) : Routine Unit := do
  let closed ← read (·.closed)
  if closed then leave
  else
    match questionFingerprint host pending.2 with
    | none => pure ()
    | some fingerprint =>
      let question := question? host pending.2
      ensureEntry host pending.1 pending.2 fingerprint
      refreshPersistent pending.1 plan.persistent
      forEach (plan.wanted.take maxDestinations) fun r =>
        refreshRecipient host pending.1 question plan.preview r
      dropDestinations pending.1 plan.wanted
      evict

/-- What is done while notifications are off: everything is cleared. -/
def clearAll : Routine Unit := do
  let entries ← read (·.entries)
  forEach entries clearEntry
  modify fun s => { s with entries := [] }
  if entries ≠ [] then
    let _ ← persist
    pure ()

def isOn (s : State) : Bool := s.surroundings.settings.enabled && s.surroundings.supported

def responseItems (m : Moment) : Option (List Json) :=
  if m.outcome = .raised then none else items? (get m.response "items")

def registrationsOf (settings : Settings) : List String :=
  if maxDestinations < settings.mobileTargets.length then []
  else settings.mobileTargets.eraseDups

def wantedOf (registrations : List String) (recipients : List Recipient) : List Recipient :=
  registrations.filterMap fun key => recipients.reverse.find? (·.registrationId = key)

def Moment.found (m : Moment) : List Recipient :=
  if m.outcome = .raised then [] else m.recipients

def refreshWith (plan : Plan) (pending : List (String × Json)) : Routine Unit := do
  let entries ← read (·.entries)
  dropStale host pending entries
  forEach (pending.take maxInteractions) (refreshQuestion host plan)
  let _ ← persist
  pure ()

/-- What `async_refresh` does under its lock before it compares anything: it ends there, or it has
a plan and the pending questions. -/
def refreshPlan : Routine (Plan × List (String × Json)) := do
  let _ ← pause
  let closed ← read (·.closed)
  if closed then leave
  else
    let on ← read isOn
    if ¬ on then do
      clearAll
      leave
    else
      let m ← pause
      let closed ← read (·.closed)
      match responseItems m with
      | none => leave
      | some items =>
        if closed then leave
        else
          let settings ← read (·.surroundings.settings)
          let found ← pause
          let now ← read (·.surroundings.now)
          pure (⟨settings.enabled && settings.persistent, settings.enabled && settings.preview,
            wantedOf (registrationsOf settings) found.found⟩, pendingOf host now items)

/-- `async_start`, up to what its refresh compares. -/
def startPlan : Routine (Plan × List (String × Json)) := do
  let _ ← pause
  let ended ← read fun s => s.closed || s.listening
  if ended then leave
  else
    let loaded ← read (·.loaded)
    if ¬ loaded then
      let m ← pause
      let closed ← read (·.closed)
      let stored ← read (·.stored)
      if m.outcome = .raised ∨ closed then leave
      else
        match normaliseLedger host.expiry stored with
        | none => leave
        | some entries => modify fun s => { s with entries := entries, loaded := true }
    let on ← read isOn
    if ¬ on then do
      clearAll
      leave
    else
      modify fun s => { s with listening := true }
      refreshPlan host

/-- `async_refresh`, up to what it compares. -/
def entryPlan : Routine (Plan × List (String × Json)) := do
  let closed ← read (·.closed)
  let loaded ← read (·.loaded)
  if closed then leave
  else if ¬ loaded then startPlan host
  else refreshPlan host

/-- `async_start`. -/
def start : Routine Unit := routine do
  let input ← startPlan host
  refreshWith host input.1 input.2

/-- `async_refresh`. -/
def refresh : Routine Unit := routine do
  let input ← entryPlan host
  refreshWith host input.1 input.2

end

/-! ## Replies -/

/-- A `mobile_app_notification_action` event. -/
structure ActionEvent where
  remote : Bool
  userId : Option String
  action : Json
  replyText : Json

section

variable (host : Host)

def findAction (entries : List LedgerEntry) (token : String) :
    Option (LedgerEntry × Destination × ActionRow) :=
  entries.findSome? fun e => e.destinations.findSome? fun d =>
    (d.actions.find? (·.token = token)).map fun a => (e, d, a)

/-- `_answers`, as far as there are any. -/
def hasAnswers (a : ActionRow) (question : Json) (event : ActionEvent) : Bool :=
  match a.kind with
  | .choice =>
    match choiceLabels question, a.index with
    | some labels, some (.int n) => decide (0 ≤ n) && decide (n < labels.length)
    | _, _ => false
  | .text => decide (get question "allow_free_text" = .bool true) &&
      isTextValue event.replyText 4096 &&
        (event.replyText.str?.any fun s => decide (PyText.strip s ≠ ""))

def currentItem (e : LedgerEntry) (items : List Json) : Option Json :=
  items.find? fun item =>
    isMapping item && decide (get item "interaction_id" = .str e.interactionId)

def selects (settings : Settings) (d : Destination) : Bool :=
  settings.enabled && settings.mobileTargets.contains d.registrationId

def isPast (now : Nat) (deadline : Option Nat) : Bool :=
  match deadline with
  | some time => decide (time ≤ now)
  | none => true

def recipientFound (d : Destination) (m : Moment) : Bool :=
  decide (m.outcome ≠ .raised) &&
    (m.recipients.find? (·.registrationId = d.registrationId)).any (recipientMatches d)

def checkReply (e : LedgerEntry) (d : Destination) (a : ActionRow) (userId : String)
    (event : ActionEvent) : Routine Bool := do
  let around ← read (·.surroundings)
  if userId ≠ d.userId ∨ isPast around.now (expiryOf host.expiry e.expiresAt) ∨
      ¬ selects around.settings d then pure false
  else
    let found ← pause
    if ¬ recipientFound d found then pure false
    else
      let m ← pause
      match (responseItems m).bind (currentItem e) with
      | none => pure false
      | some current =>
        if ¬ validInteraction host current ∨ ¬ sameQuestion host e current then pure false
        else
          match question? host current with
          | none => pure false
          | some question =>
            pure (decide (get question "question_id" = .str e.questionId) &&
              hasAnswers a question event)

/-- The checks after the claim is saved, just before the reply is sent. -/
def revalidate (e : LedgerEntry) (d : Destination) (userId : String) : Routine Bool := do
  let closed ← read (·.closed)
  if closed then pure false
  else
    let m ← pause
    match (responseItems m).bind (currentItem e) with
    | none => pure false
    | some latest =>
      let around ← read (·.surroundings)
      let deadline := expiryValue host (get latest "expires_at")
      if ¬ validInteraction host latest ∨ ¬ sameQuestion host e latest ∨
          isPast around.now deadline ∨ ¬ selects around.settings d ∨ ¬ around.supported ∨
            userId ≠ d.userId ∨ isPast around.now (expiryOf host.expiry e.expiresAt) then
        pure false
      else
        let found ← pause
        let around ← read (·.surroundings)
        pure (recipientFound d found && selects around.settings d && around.supported &&
          !isPast around.now deadline && !isPast around.now (expiryOf host.expiry e.expiresAt))

def claim (id : String) (attempted : Bool) : Routine Unit :=
  setEntry id fun e => { e with attempted }

/-- `_release_answer_claim`. -/
def release (id : String) : Routine Unit := do
  claim id false
  let saved ← attempt persist fun stop => do
    if stop ≠ .crashed then claim id true
    raise stop
  if ¬ saved then claim id true

def dispatch (e : LedgerEntry) (a : ActionRow) : Routine Unit := do
  modify fun s =>
    { s with answers := s.answers ++ [⟨e.interactionId, e.questionId, a.clientRequestId⟩] }
  let m ← pause
  if m.outcome = .raised then leave
  else
    -- the entry as it is now: the claim is on it
    clearEntry e
    removeEntry e.interactionId
    let _ ← persist
    pure ()

def reply (e : LedgerEntry) (d : Destination) (a : ActionRow) (userId : String) : Routine Unit := do
  if e.attempted then leave
  else
    claim e.interactionId true
    let saved ← persist
    if ¬ saved then claim e.interactionId false
    else
      let confirmed ← attempt (revalidate host e d userId) fun stop => do
        if stop ≠ .crashed then release e.interactionId
        raise stop
      if confirmed then dispatch e a
      else release e.interactionId

def onAction (event : ActionEvent) : Routine Unit := routine do
  let ready ← read fun s => !s.closed && s.loaded && isOn s
  match event.userId, event.action with
  | some userId, .str token =>
    if ¬ ready ∨ ¬ event.remote ∨ userId = "" ∨ ¬ isSecret token then leave
    else
      let _ ← pause
      let closed ← read (·.closed)
      let entries ← read (·.entries)
      if closed then leave
      else
        match findAction entries token with
        | none => leave
        | some (e, d, a) =>
          let admitted ← checkReply host e d a userId event
          if admitted then reply host e d a userId
          else leave
  | _, _ => leave

end

inductive Step
  | start (script : List Moment)
  | refresh (script : List Moment)
  | action (event : ActionEvent) (script : List Moment)
  | surround (surroundings : Surroundings)
  | close
  | restart

def State.initial (surroundings : Surroundings) : State where
  entries := []
  loaded := false
  closed := false
  listening := false
  crashed := false
  surroundings := surroundings
  script := []
  stored := .null
  drawn := 0
  passed := []
  answers := []

def run (c : Routine Unit) (script : List Moment) (s : State) : State :=
  let ended := c { s with script := script }
  { ended.2 with crashed := decide (ended.1 = .error .crashed) }

def next (host : Host) (s : State) : Step → Option State
  | .start script => if s.crashed then none else some (run (start host) script s)
  | .refresh script => if s.crashed then none else some (run (refresh host) script s)
  | .action event script =>
    if s.crashed ∨ ¬ s.listening then none else some (run (onAction host event) script s)
  | .surround surroundings => some { s with surroundings := surroundings }
  | .close => if s.crashed then none else some { s with closed := true, listening := false }
  | .restart =>
    some { s with
      entries := [], loaded := false, closed := false, listening := false, crashed := false }

def sampleHost : Host where
  expiry := fun _ => some 10
  printable := fun _ => true
  sensitive := fun _ => false
  digest := fun _ => String.ofList (List.replicate 64 '0')
  token := fun n => String.ofList (List.replicate (20 + n) 'a')
  clientRequestId := fun n => String.ofList (List.replicate (20 + n) 'b')

def sampleItem : Json :=
  .obj [("interaction_id", .str "i"), ("thread_id", .str "t"), ("kind", .str "user_input"),
    ("allowed_actions", .arr [.str "answer"]), ("expires_at", .str "x"),
    ("display", .obj [("questions", .arr [.obj [("question_id", .str "q"),
      ("header", .str "Colour"), ("prompt", .str "Which colour?"), ("multiple", .bool false),
      ("allow_free_text", .bool true)]])])]

def sampleRegistration (n : Fin 16) : String := String.ofList (List.replicate (n + 1) 'd')

def sampleRecipient (n : Fin 16) : Recipient where
  registrationId := sampleRegistration n
  deviceId := sampleRegistration n
  userId := "user"
  service := "mobile_app_" ++ sampleRegistration n
  inlineReply := true
  valid := by
    revert n
    decide +kernel

def sampleSurroundings (enabled : Bool) (registrations : List (Fin 16)) : Surroundings :=
  ⟨⟨enabled, false, false, registrations.map sampleRegistration⟩, true,
    registrations.map fun n => (sampleRecipient n).service, [], 0⟩

def sampleListing : Moment :=
  { Moment.quiet with response := .obj [("items", .arr [sampleItem])] }

def sampleFound (registrations : List (Fin 16)) : Moment :=
  { Moment.quiet with recipients := registrations.map sampleRecipient }

end CodexBridge.Questions
