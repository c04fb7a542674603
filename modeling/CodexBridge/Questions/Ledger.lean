import CodexBridge.Library.Json

/-! # The ledger of question notifications

For each pending question the Integration keeps to which devices it was announced, with the tokens
of the reply actions, and whether a reply has been attempted. The ledger is saved as JSON; a saved
value is loaded only if it passes every check.
-/

namespace CodexBridge.Questions

/-! ## Texts -/

def maxInteractions : Nat := 128

def maxDestinations : Nat := 8

/-- `_ID`. -/
def isId (s : String) : Bool :=
  decide (1 ≤ s.length) && decide (s.length ≤ 200) &&
    s.toList.all fun c => c.isAlphanum || c ∈ ['_', '.', ':', '-']

def isSecret (s : String) : Bool :=
  decide (20 ≤ s.length) && decide (s.length ≤ 128) &&
    s.toList.all fun c => c.isAlphanum || c ∈ ['_', '-']

/-- `_MOBILE_SERVICE`. -/
def isMobileService (s : String) : Bool :=
  let start := "mobile_app_".toList
  let rest := s.toList.drop start.length
  start.isPrefixOf s.toList && decide (1 ≤ rest.length) && decide (rest.length ≤ 100) &&
    rest.all fun c => c.isLower || c.isDigit || c = '_'

/-- `_FINGERPRINT`. -/
def isFingerprint (s : String) : Bool := PyText.isLowerHex 64 s

/-- `_text`. -/
def isText (s : String) (maximum : Nat) : Bool :=
  decide (s ≠ "") && decide (s.utf8ByteSize ≤ maximum) &&
    s.toList.all fun c => (decide (32 ≤ c.toNat) || c ∈ ['\r', '\n', '\t']) && c.toNat ≠ 127

inductive ActionKind
  | choice
  | text

def ActionKind.name : ActionKind → String
  | .choice => "choice"
  | .text => "text"

def ActionKind.ofName : String → Option ActionKind
  | "choice" => some .choice
  | "text" => some .text
  | _ => none

structure ActionRow where
  token : String
  clientRequestId : String
  kind : ActionKind
  index : Option Json

structure Destination where
  registrationId : String
  deviceId : String
  userId : String
  service : String
  inlineReply : Bool
  actions : List ActionRow
  attempted : Bool

structure LedgerEntry where
  interactionId : String
  threadId : String
  questionId : String
  questionFingerprint : String
  expiresAt : String
  destinations : List Destination
  persistent : Bool
  attempted : Bool
  openChatOnly : Bool

def LedgerEntry.actions (e : LedgerEntry) : List ActionRow := e.destinations.flatMap (·.actions)

def ActionRow.json (a : ActionRow) : Json :=
  .obj ([("token", .str a.token), ("client_request_id", .str a.clientRequestId),
    ("kind", .str a.kind.name)] ++ (a.index.map fun index => ("index", index)).toList)

def Destination.json (d : Destination) : Json :=
  .obj [("registration_id", .str d.registrationId), ("device_id", .str d.deviceId),
    ("user_id", .str d.userId), ("service", .str d.service), ("inline_reply", .bool d.inlineReply),
    ("actions", .arr (d.actions.map ActionRow.json)), ("attempted", .bool d.attempted)]

def LedgerEntry.json (e : LedgerEntry) : Json :=
  .obj [("interaction_id", .str e.interactionId), ("thread_id", .str e.threadId),
    ("question_id", .str e.questionId), ("question_fingerprint", .str e.questionFingerprint),
    ("expires_at", .str e.expiresAt), ("destinations", .arr (e.destinations.map Destination.json)),
    ("persistent", .bool e.persistent), ("attempted", .bool e.attempted),
    ("open_chat_only", .bool e.openChatOnly)]

def ledgerValue (entries : List LedgerEntry) : Json :=
  .obj [("interactions", .arr (entries.map LedgerEntry.json))]

def lastEntries (entries : List LedgerEntry) : List LedgerEntry :=
  entries.drop (entries.length - maxInteractions)

section

variable (expiry : String → Option Nat)

/-- `_expiry`, given the parser for dates with a time zone. -/
def expiryOf (value : String) : Option Nat := if value.length ≤ 64 then expiry value else none

def field (fields : List (String × Json)) (key : String) : Json :=
  (Json.field? fields key).getD .null

def indexValid (kind : ActionKind) (index : Option Json) : Bool :=
  match kind with
  | .choice => index = some (.int 0) || index = some (.int 1)
  | .text => true

def readAction : Json → Option ActionRow
  | .obj fields =>
    match field fields "token", (field fields "kind").str?.bind ActionKind.ofName,
        field fields "client_request_id" with
    | .str token, some kind, .str clientRequestId =>
      let index := Json.field? fields "index"
      if isSecret token ∧ isSecret clientRequestId ∧ indexValid kind index then
        some ⟨token, clientRequestId, kind, index⟩
      else none
    | _, _, _ => none
  | _ => none

def lengthWithin (s : String) (limit : Nat) : Bool :=
  decide (1 ≤ s.length) && decide (s.length ≤ limit)

def bindingValid (registrationId deviceId userId service : String) : Bool :=
  lengthWithin registrationId 128 && lengthWithin deviceId 128 && lengthWithin userId 128 &&
    lengthWithin service 120 && isMobileService service

def readDestination : Json → Option Destination
  | .obj fields =>
    match field fields "registration_id", field fields "device_id", field fields "user_id",
        field fields "service", field fields "inline_reply", field fields "actions",
        field fields "attempted" with
    | .str registrationId, .str deviceId, .str userId, .str service, .bool inlineReply,
        .arr actions, .bool attempted =>
        if bindingValid registrationId deviceId userId service ∧ actions.length ≤ 3 then
          (actions.mapM readAction).map fun actions =>
            ⟨registrationId, deviceId, userId, service, inlineReply, actions, attempted⟩
        else none
    | _, _, _, _, _, _, _ => none
  | _ => none

def headValid (interactionId threadId questionId questionFingerprint expiresAt : String) : Bool :=
  isId interactionId && isId threadId && isText questionId 128 &&
    isFingerprint questionFingerprint && (expiryOf expiry expiresAt).isSome

def readEntry : Json → Option LedgerEntry
  | .obj fields =>
    match field fields "interaction_id", field fields "thread_id", field fields "question_id",
        field fields "question_fingerprint", field fields "expires_at",
        field fields "destinations", field fields "persistent", field fields "attempted",
        field fields "open_chat_only" with
    | .str interactionId, .str threadId, .str questionId, .str questionFingerprint,
        .str expiresAt, .arr destinations, .bool persistent, .bool attempted,
        .bool openChatOnly =>
        if headValid expiry interactionId threadId questionId questionFingerprint expiresAt ∧
            destinations.length ≤ maxDestinations then
          (destinations.mapM readDestination).map fun destinations =>
            ⟨interactionId, threadId, questionId, questionFingerprint, expiresAt, destinations,
              persistent, attempted, openChatOnly⟩
        else none
    | _, _, _, _, _, _, _, _, _ => none
  | _ => none

def Unshared (entries : List LedgerEntry) : Prop :=
  (entries.map (·.interactionId)).Nodup ∧
    ((entries.flatMap LedgerEntry.actions).map (·.token)).Nodup ∧
      ((entries.flatMap LedgerEntry.actions).map (·.clientRequestId)).Nodup

instance (entries : List LedgerEntry) : Decidable (Unshared entries) :=
  inferInstanceAs (Decidable (_ ∧ _ ∧ _))

/-- `_normalise_ledger`. The checks that compare entries come last. -/
def normaliseLedger : Json → Option (List LedgerEntry)
  | .null => some []
  | .obj fields =>
    match field fields "interactions" with
    | .arr interactions =>
      if Json.hasExactly fields ["interactions"] ∧ interactions.length ≤ maxInteractions then
        (interactions.mapM (readEntry expiry)).bind fun entries =>
          if Unshared entries then some entries else none
      else none
    | _ => none
  | _ => none

def ActionRow.Valid (a : ActionRow) : Prop :=
  isSecret a.token = true ∧ isSecret a.clientRequestId = true ∧ indexValid a.kind a.index = true

structure Destination.Valid (d : Destination) : Prop where
  binding : bindingValid d.registrationId d.deviceId d.userId d.service = true
  length : d.actions.length ≤ 3
  actions : ∀ a ∈ d.actions, a.Valid

structure LedgerEntry.Valid (e : LedgerEntry) : Prop where
  head : headValid expiry e.interactionId e.threadId e.questionId e.questionFingerprint
    e.expiresAt = true
  length : e.destinations.length ≤ maxDestinations
  destinations : ∀ d ∈ e.destinations, d.Valid

theorem ofName_name (kind : ActionKind) : ActionKind.ofName kind.name = some kind := by
  cases kind with
  | choice => rfl
  | text => rfl

theorem readAction_json (a : ActionRow) :
    readAction a.json = if isSecret a.token ∧ isSecret a.clientRequestId ∧
      indexValid a.kind a.index then some a else none := by
  obtain ⟨token, clientRequestId, kind, index⟩ := a
  have hkind := ofName_name kind
  cases index with
  | none => simp [ActionRow.json, readAction, field, Json.field?, Json.str?, hkind]
  | some index => simp [ActionRow.json, readAction, field, Json.field?, Json.str?, hkind]

theorem ActionRow.Valid.read {a : ActionRow} (h : a.Valid) : readAction a.json = some a := by
  rw [readAction_json]
  exact if_pos h

theorem read_action_eq {a b : ActionRow} (h : readAction a.json = some b) : b = a := by
  rw [readAction_json] at h
  obtain ⟨_, h⟩ := Option.ite_none_right_eq_some.mp h
  cases h
  rfl

theorem readDestination_json (d : Destination) :
    readDestination d.json =
      if bindingValid d.registrationId d.deviceId d.userId d.service ∧ d.actions.length ≤ 3 then
        ((d.actions.map ActionRow.json).mapM readAction).map fun actions => { d with actions }
      else none := by
  simp [Destination.json, readDestination, field, Json.field?]

theorem Destination.Valid.read {d : Destination} (h : d.Valid) :
    readDestination d.json = some d := by
  rw [readDestination_json, if_pos ⟨h.binding, h.length⟩,
    Json.mapM_map_some fun a ha => (h.actions a ha).read]
  rfl

theorem read_destination_eq {d d' : Destination} (h : readDestination d.json = some d') :
    d' = d := by
  rw [readDestination_json] at h
  obtain ⟨_, h⟩ := Option.ite_none_right_eq_some.mp h
  obtain ⟨actions, hactions, rfl⟩ := Option.map_eq_some_iff.mp h
  rw [Json.mapM_map_eq (fun a _ b hb => read_action_eq hb) hactions]

theorem readEntry_json (e : LedgerEntry) :
    readEntry expiry e.json =
      if headValid expiry e.interactionId e.threadId e.questionId e.questionFingerprint
          e.expiresAt ∧ e.destinations.length ≤ maxDestinations then
        ((e.destinations.map Destination.json).mapM readDestination).map fun destinations =>
          { e with destinations }
      else none := by
  simp [LedgerEntry.json, readEntry, field, Json.field?]

variable {expiry}

theorem LedgerEntry.Valid.read {e : LedgerEntry} (h : e.Valid expiry) :
    readEntry expiry e.json = some e := by
  rw [readEntry_json, if_pos ⟨h.head, h.length⟩,
    Json.mapM_map_some fun d hd => (h.destinations d hd).read]
  rfl

theorem read_entry_eq {e e' : LedgerEntry} (h : readEntry expiry e.json = some e') : e' = e := by
  rw [readEntry_json] at h
  obtain ⟨_, h⟩ := Option.ite_none_right_eq_some.mp h
  obtain ⟨destinations, hdestinations, rfl⟩ := Option.map_eq_some_iff.mp h
  rw [Json.mapM_map_eq (fun d _ d' hd' => read_destination_eq hd') hdestinations]

theorem normalise_ledgerValue {entries : List LedgerEntry} (hvalid : ∀ e ∈ entries, e.Valid expiry)
    (hunshared : Unshared entries) (hlength : entries.length ≤ maxInteractions) :
    normaliseLedger expiry (ledgerValue entries) = some entries := by
  have hread : (entries.map LedgerEntry.json).mapM (readEntry expiry) = some entries :=
    Json.mapM_map_some fun e he => (hvalid e he).read
  have hfields : Json.hasExactly [("interactions", .arr (entries.map LedgerEntry.json))]
      ["interactions"] = true := rfl
  show (if Json.hasExactly [("interactions", .arr (entries.map LedgerEntry.json))]
      ["interactions"] ∧ (entries.map LedgerEntry.json).length ≤ maxInteractions then _
    else none) = _
  rw [List.length_map, if_pos ⟨hfields, hlength⟩, hread]
  show (if Unshared entries then some entries else none) = _
  rw [if_pos hunshared]

theorem normalise_ledgerValue_eq {entries loaded : List LedgerEntry}
    (h : normaliseLedger expiry (ledgerValue entries) = some loaded) : loaded = entries := by
  have hopen : (if Json.hasExactly [("interactions", .arr (entries.map LedgerEntry.json))]
      ["interactions"] ∧ (entries.map LedgerEntry.json).length ≤ maxInteractions then
        ((entries.map LedgerEntry.json).mapM (readEntry expiry)).bind fun entries =>
          if Unshared entries then some entries else none
      else none) = some loaded := h
  obtain ⟨_, hopen⟩ := Option.ite_none_right_eq_some.mp hopen
  obtain ⟨read, hread, hopen⟩ := Option.bind_eq_some_iff.mp hopen
  obtain ⟨_, hopen⟩ := Option.ite_none_right_eq_some.mp hopen
  cases hopen
  exact Json.mapM_map_eq (fun e _ e' he' => read_entry_eq he') hread

theorem normaliseLedger_unshared {value : Json} {entries : List LedgerEntry}
    (h : normaliseLedger expiry value = some entries) : Unshared entries := by
  unfold normaliseLedger at h
  split at h
  · cases h
    exact ⟨List.nodup_nil, List.nodup_nil, List.nodup_nil⟩
  · split at h
    · obtain ⟨_, h⟩ := Option.ite_none_right_eq_some.mp h
      obtain ⟨read, _, h⟩ := Option.bind_eq_some_iff.mp h
      obtain ⟨hunshared, h⟩ := Option.ite_none_right_eq_some.mp h
      cases h
      exact hunshared
    · cases h
  · cases h

end

end CodexBridge.Questions
