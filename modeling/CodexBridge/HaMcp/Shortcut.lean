import CodexBridge.HaMcp.Problem
import CodexBridge.Library.Dict

/-! # The Home Assistant MCP shortcut

One administrator's grant: a refresh token in Home Assistant, a journal in the private
store, and a server in the App that holds an access token. Every await of an operation is
one step, so that tokens are revoked, servers edited and late requests served in between,
and Home Assistant may stop at any of them.
-/

namespace CodexBridge.HaMcp

/-! ## Tokens and the journal -/

/-- A bearer token. Its SHA-256 digest is represented by the token itself. -/
inductive Credential
  /-- `async_create_access_token` for a refresh token. -/
  | access (tokenId : String) (issuedAt : Nat)
  | manual (text : String)
deriving DecidableEq

def Credential.tokenId? : Credential → Option String
  | .access tokenId _ => some tokenId
  | .manual _ => none

structure RefreshToken where
  id : String
  userId : String
  clientName : String

def tokenName (name : String) : String := "Codex Bridge HA Assist (" ++ name ++ ")"

inductive State
  | preparing
  | creating
  | connected
  | rotating
  | disconnecting
deriving DecidableEq

structure Record where
  ownerId : String
  tokenId : Option String
  serverName : String
  fingerprint : Option Credential
  pendingFingerprint : Option Credential
  state : State

namespace Record

def preparing (ownerId name : String) : Record := ⟨ownerId, none, name, none, none, .preparing⟩

/-- `_parse_record` accepts the record. -/
def parses (r : Record) : Bool :=
  (!(r.state = .connected || r.state = .rotating) || (r.tokenId.isSome && r.fingerprint.isSome)) &&
    (r.state ≠ .rotating || r.pendingFingerprint.isSome)

/-- `_matches_token`; the client id and the type are those of every token here. -/
def matchesToken (r : Record) (t : RefreshToken) : Bool :=
  t.userId = r.ownerId && t.clientName = tokenName r.serverName

def digests (r : Record) : List Credential :=
  let found := [r.pendingFingerprint, r.fingerprint].filterMap id
  if r.pendingFingerprint = r.fingerprint then found.take 1 else found

end Record

def FIXED_URL : String := "http://homeassistant:8123/api/mcp/assist"

/-- A server of the App; only a local relay with a bearer token has a credential here. -/
structure Server where
  url : String
  bearer : Option Credential

/-- `_require_credential_binding`. -/
def Server.bound (s : Server) (url : String) (c : Credential) : Bool :=
  s.url = url && s.bearer = some c

inductive Call
  | add (name : String) (token : Credential)
  | replace (name : String) (expected token : Credential)
  | remove (name : String) (expected : Credential)

/-- `create_server`, `replace_credential` and the managed `remove_server`. -/
def handle (servers : Dict String Server) : Call → Except Problem (Dict String Server)
  | .add name token =>
    if servers.contains name then .error ⟨409, "mcp_config_conflict"⟩
    else .ok (servers.set name ⟨FIXED_URL, some token⟩)
  | .replace name expected token =>
    match servers.get? name with
    | none => .error ⟨404, "mcp_server_not_found"⟩
    | some s =>
      if s.bound FIXED_URL expected then .ok (servers.set name { s with bearer := some token })
      else .error ⟨409, "mcp_credential_binding_conflict"⟩
  | .remove name expected =>
    match servers.get? name with
    | none => .error ⟨404, "mcp_server_not_found"⟩
    | some s =>
      if s.bound FIXED_URL expected then .ok (servers.erase name)
      else .error ⟨409, "mcp_credential_binding_conflict"⟩

def BINDING_CONFLICT : String := "mcp_credential_binding_conflict"

def ABSENT : List String := ["mcp_server_not_found", "resource_gone"]

def RETRY : List String := ["mcp_config_conflict", "runtime_mutation_conflict"]

/-- A wait in Home Assistant; one that fails or is cancelled may have taken effect. -/
inductive Outcome
  | done
  | failed (effective : Bool)
  | cancelled (effective : Bool)
deriving DecidableEq

def Outcome.effective : Outcome → Bool
  | .done => true
  | .failed effective | .cancelled effective => effective

/-- When a request takes effect whose answer does not arrive. -/
inductive Effect
  | never
  | now
  | later
deriving DecidableEq

inductive Reply
  | answered
  /-- The App is busy, disabled or fails; it may have changed the server before. -/
  | refused (p : Problem) (effective : Bool)
  | lost (effect : Effect)
  | cancelled (effect : Effect)
deriving DecidableEq

inductive Answer
  | ok
  | error (code : String)
  /-- A `BridgeApiConnectionError`, or any other exception. -/
  | failed
  | cancelled
deriving DecidableEq

/-- Where the operation that holds the lock waits. -/
inductive Operation
  | savingPreparing
  | creatingToken
  | savingToken
  | savingCreating
  | adding
  | selecting
  | savingConnected
  | savingRotating
  | replacing
  | savingRotated
  | savingRetry
  /-- From here on `_disconnect_locked`; `smooth` while every step of it has succeeded and
  every managed-remove request was answered. -/
  | findingOwner
  | savingDisconnecting
  | deselecting (pending smooth : Bool)
  | removing (digests : List Credential) (pending smooth : Bool)
  | emptying (record : Record) (smooth : Bool)

namespace Operation

def saving : Operation → Bool
  | .savingPreparing | .savingToken | .savingCreating | .savingConnected | .savingRotating
  | .savingRotated | .savingRetry | .savingDisconnecting | .emptying _ _ => true
  | _ => false

end Operation

/-- One instance; the journal could not be read when it is not `loaded`. -/
structure Memory where
  record : Option Record
  loaded : Bool
  operation : Option Operation

structure World where
  tokens : List RefreshToken
  saved : Option Record
  servers : Dict String Server
  late : List Call
  memory : Option Memory
  returned : Option Bool

/-- What an operation finds around it. -/
structure Checks where
  valid : Bool
  environment : Bool
  environmentPending : Bool

/-- The end of a status, after its checks. -/
inductive Listing
  /-- The access has expired, a retry is noted, or the list is not available. -/
  | unlisted
  | listed (present : Bool)
deriving DecidableEq

inductive Step
  /-- A new instance loads the journal and runs `async_setup`. -/
  | start (readable : Bool) (checks : Checks)
  /-- A new instance runs `async_remove`. -/
  | remove (readable : Bool)
  | close
  | crash (effect : Effect)
  | status (checks : Checks) (listing : Listing)
  | connect (allowed : Bool) (ownerId name : String)
  | refresh (checks : Checks) (now : Nat)
  | disconnect
  | save (o : Outcome) (now : Nat)
  | create (o : Outcome) (id : String)
  | request (reply : Reply)
  | select (o : Outcome) (supported : Bool)
  | findOwner (o : Outcome)
  | revoke (id : String)
  | edit (name : String) (server : Option Server)
  | serve (i : Nat)

namespace World

def initial : World where
  tokens := []
  saved := none
  servers := Dict.empty
  late := []
  memory := none
  returned := none

def enter (w : World) (record : Option Record) (operation : Operation) : World :=
  { w with memory := some ⟨record, true, some operation⟩, returned := none }

def leave (w : World) (record : Option Record) : World :=
  { w with memory := some ⟨record, true, none⟩, returned := none }

/-- `_disconnect_locked` returns. -/
def finish (w : World) (record : Option Record) (smooth : Bool) : World :=
  { w.leave record with returned := some smooth }

def serve (w : World) (call : Call) : World :=
  match handle w.servers call with
  | .ok servers => { w with servers := servers }
  | .error _ => w

def effect (w : World) (call : Call) : Effect → World
  | .never => w
  | .now => w.serve call
  | .later => { w with late := w.late ++ [call] }

def request (w : World) (call : Call) : Reply → World
  | .answered => w.serve call
  | .refused _ effective => if effective then w.serve call else w
  | .lost effect | .cancelled effect => w.effect call effect

def answer (w : World) (call : Call) : Reply → Answer
  | .answered =>
    match handle w.servers call with
    | .ok _ => .ok
    | .error p => .error p.kept
  | .refused p _ => .error p.kept
  | .lost _ => .failed
  | .cancelled _ => .cancelled

def refusal (p : Problem) : Bool := !ABSENT.contains p.kept && p.code ≠ BINDING_CONFLICT

/-- `_disconnect_locked` up to its first wait. -/
def disconnectLocked (w : World) (record : Option Record) : World :=
  match record with
  | none => w.finish none true
  | some r =>
    match r.tokenId with
    | some id =>
      { w with tokens := w.tokens.filter fun t => !(t.id = id && r.matchesToken t) }.enter
        (some { r with state := .disconnecting }) .savingDisconnecting
    | none => w.enter (some r) .findingOwner

def ownerFound (w : World) (r : Record) (o : Outcome) : World :=
  match o with
  | .done =>
    { w with tokens := w.tokens.filter fun t => !r.matchesToken t }.enter
      (some { r with state := .disconnecting }) .savingDisconnecting
  | _ => w.leave (some r)

/-- The server is gone, or what is left of it is kept for another attempt. -/
def removalEnded (w : World) (r : Record) (pending smooth : Bool) : World :=
  if pending then w.finish (some r) smooth else w.enter none (.emptying r smooth)

def deselected (w : World) (r : Record) (pending smooth supported : Bool) : World :=
  if r.digests.isEmpty then w.removalEnded r pending smooth
  else if !supported then w.removalEnded r true false
  else w.enter (some r) (.removing r.digests pending smooth)

def removed (w : World) (r : Record) (c : Credential) (rest : List Credential)
    (pending smooth : Bool) (reply : Reply) : World :=
  let t := w.request (.remove r.serverName c) reply
  match w.answer (.remove r.serverName c) reply with
  | .ok => t.removalEnded r pending smooth
  | .error code =>
    if ABSENT.contains code then t.removalEnded r pending smooth
    else if code = BINDING_CONFLICT then
      if rest.isEmpty then t.removalEnded r pending smooth
      else t.enter (some r) (.removing rest pending smooth)
    else t.removalEnded r true (smooth && reply = .answered)
  | .failed => t.removalEnded r true false
  | .cancelled => t.leave (some r)

def write (w : World) (record : Option Record) (o : Outcome) : World :=
  if o.effective then { w with saved := record } else w

/-- `_save` returns or raises, and the operation goes on to its next wait. -/
def save (w : World) (o : Outcome) (now : Nat) : Option World :=
  match w.memory with
  | some ⟨record, true, some operation⟩ =>
    let t := w.write record o
    match operation, record with
    | .savingPreparing, some r =>
      some (if o = .done then t.enter (some r) .creatingToken else t.disconnectLocked (some r))
    | .savingToken, some r =>
      let issued := { r with
        fingerprint := r.tokenId.map fun id => .access id now
        state := .creating }
      some (if o = .done then t.enter (some issued) .savingCreating
        else t.disconnectLocked (some r))
    | .savingCreating, some r =>
      some (if o = .done then t.enter (some r) .adding else t.disconnectLocked (some r))
    | .savingConnected, some r | .savingRotated, some r =>
      some (if o = .done then t.leave (some r) else t.disconnectLocked (some r))
    | .savingRotating, some r =>
      some (if o = .done then t.enter (some r) .replacing else t.disconnectLocked (some r))
    -- raised in an exception handler, a failure escapes
    | .savingRetry, some r => some (t.leave (some r))
    | .savingDisconnecting, some r =>
      some (match o with
        | .done => t.enter (some r) (.deselecting false true)
        | .failed _ => t.enter (some r) (.deselecting true false)
        | .cancelled _ => t.leave (some r))
    | .emptying r smooth, none =>
      some (match o with
        | .done => t.finish none smooth
        | .failed _ => t.finish (some r) false
        | .cancelled _ => t.leave none)
    | _, _ => none
  | _ => none

/-- `async_create_refresh_token`. -/
def create (w : World) (o : Outcome) (id : String) : Option World :=
  match w.memory with
  | some ⟨some r, true, some .creatingToken⟩ =>
    let t := if o.effective then
      { w with tokens := ⟨id, r.ownerId, tokenName r.serverName⟩ :: w.tokens } else w
    some (if o = .done then t.enter (some { r with tokenId := some id }) .savingToken
      else t.disconnectLocked (some r))
  | _ => none

def requested (w : World) (reply : Reply) : Option World :=
  match w.memory with
  | some ⟨some r, true, some .adding⟩ =>
    match r.fingerprint with
    | some token =>
      let t := w.request (.add r.serverName token) reply
      some (if w.answer (.add r.serverName token) reply = .ok then t.enter (some r) .selecting
        else t.disconnectLocked (some r))
    | none => none
  | some ⟨some r, true, some .replacing⟩ =>
    match r.fingerprint, r.pendingFingerprint with
    | some expected, some token =>
      let t := w.request (.replace r.serverName expected token) reply
      some (match w.answer (.replace r.serverName expected token) reply with
        | .ok => t.enter (some { r with
            state := .connected, fingerprint := some token, pendingFingerprint := none })
            .savingRotated
        | .error code =>
          if RETRY.contains code then
            t.enter (some { r with state := .connected, pendingFingerprint := none })
              .savingRetry
          else t.disconnectLocked (some r)
        | _ => t.disconnectLocked (some r))
    | _, _ => none
  | some ⟨some r, true, some (.removing (c :: rest) pending smooth)⟩ =>
    some (w.removed r c rest pending smooth reply)
  | _ => none

def selected (w : World) (o : Outcome) (supported : Bool) : Option World :=
  match w.memory with
  | some ⟨some r, true, some .selecting⟩ =>
    some (if o = .done then w.enter (some { r with state := .connected }) .savingConnected
      else w.disconnectLocked (some r))
  | some ⟨some r, true, some (.deselecting pending smooth)⟩ =>
    some (match o with
      | .done => w.deselected r pending smooth supported
      | .failed _ => w.deselected r true false supported
      | .cancelled _ => w.leave (some r))
  | _ => none

def findOwner (w : World) (o : Outcome) : Option World :=
  match w.memory with
  | some ⟨some r, true, some .findingOwner⟩ => some (w.ownerFound r o)
  | _ => none

/-- `_owned_token` finds the token. -/
def ownsToken (w : World) (r : Record) (checks : Checks) : Bool :=
  checks.valid && w.tokens.any fun t => r.tokenId = some t.id && r.matchesToken t

/-- `async_setup` after the journal was read. -/
def setup (w : World) (record : Option Record) (checks : Checks) : World :=
  match record with
  | none => w.leave none
  | some r =>
    if r.state ≠ .connected then w.disconnectLocked (some r)
    else if !w.ownsToken r checks then w.disconnectLocked (some r)
    else if checks.environment || checks.environmentPending then w.leave (some r)
    else w.disconnectLocked (some r)

/-- The journal is read; a record that does not parse is kept, and nothing is inferred. -/
def load (w : World) (readable : Bool) : Option (Option Record) :=
  if readable && w.saved.all Record.parses then some w.saved else none

def start (w : World) (readable : Bool) (checks : Checks) : Option World :=
  if w.memory.isSome then none
  else match w.load readable with
    | none => some { w with memory := some ⟨none, false, none⟩, returned := none }
    | some record => some (w.setup record checks)

/-- `async_remove` of an instance without timers; one that cannot read the journal raises. -/
def remove (w : World) (readable : Bool) : Option World :=
  if w.memory.isSome then none
  else match w.load readable with
    | none => some w
    | some record => some (w.disconnectLocked record)

def idle (w : World) : Option (Option Record) :=
  match w.memory with
  | some ⟨record, true, none⟩ => some record
  | _ => none

def status (w : World) (checks : Checks) (listing : Listing) : Option World :=
  w.idle.map fun record =>
    match record with
    | none => w.leave none
    | some r =>
      if r.state ≠ .connected then w.leave (some r)
      else if !w.ownsToken r checks then w.disconnectLocked (some r)
      else if !checks.environment && checks.environmentPending then w.leave (some r)
      else if !checks.environment then w.disconnectLocked (some r)
      else if listing = .listed false then w.disconnectLocked (some r)
      else w.leave (some r)

def connect (w : World) (allowed : Bool) (ownerId name : String) : Option World :=
  w.idle.map fun record =>
    match record with
    | none =>
      if allowed then w.enter (some (Record.preparing ownerId name)) .savingPreparing
      else w.leave none
    | some r => w.leave (some r)

def refresh (w : World) (checks : Checks) (now : Nat) : Option World :=
  w.idle.map fun record =>
    match record with
    | none => w.leave none
    | some r =>
      if r.state ≠ .connected then w.disconnectLocked (some r)
      else
        let owned := w.ownsToken r checks
        if !checks.environment && checks.environmentPending && owned then w.leave (some r)
        else if !checks.environment || !owned then w.disconnectLocked (some r)
        else w.enter (some { r with
          state := .rotating
          pendingFingerprint := r.tokenId.map fun id => .access id now }) .savingRotating

def disconnect (w : World) : Option World := w.idle.map w.disconnectLocked

def close (w : World) : Option World :=
  match w.memory with
  | some ⟨_, _, none⟩ => some { w with memory := none, returned := none }
  | _ => none

def underWay (r : Record) : Operation → Option Call
  | .adding => r.fingerprint.map (.add r.serverName)
  | .replacing =>
    match r.fingerprint, r.pendingFingerprint with
    | some expected, some token => some (.replace r.serverName expected token)
    | _, _ => none
  | .removing (c :: _) _ _ => some (.remove r.serverName c)
  | _ => none

/-- The process dies; a save, a request or the creation of a token may still succeed. -/
def crash (w : World) (effect : Effect) : Option World :=
  match w.memory with
  | some ⟨record, _, operation⟩ =>
    let saved := if effect = .now ∧ operation.any Operation.saving then record else w.saved
    let t := match record.bind fun r => operation.bind (underWay r) with
      | some call => w.effect call effect
      | none => w
    some { t with saved := saved, memory := none, returned := none }
  | none => none

def edit (w : World) (name : String) (server : Option Server) : Option World :=
  match server with
  | none => some { w with servers := w.servers.erase name }
  | some s =>
    if s.bearer.any fun c => c.tokenId?.isSome then none
    else some { w with servers := w.servers.set name s }

def next (w : World) : Step → Option World
  | .start readable checks => w.start readable checks
  | .remove readable => w.remove readable
  | .close => w.close
  | .crash effect => w.crash effect
  | .status checks listing => w.status checks listing
  | .connect allowed ownerId name => w.connect allowed ownerId name
  | .refresh checks now => w.refresh checks now
  | .disconnect => w.disconnect
  | .save o now => w.save o now
  | .create o id => w.create o id
  | .request reply =>
    match reply with
    | .refused p _ => if refusal p then w.requested reply else none
    | _ => w.requested reply
  | .select o supported => w.selected o supported
  | .findOwner o => w.findOwner o
  | .revoke id => some { w with tokens := w.tokens.filter fun t => t.id ≠ id }
  | .edit name server => w.edit name server
  | .serve i =>
    match w.late[i]? with
    | some call => some ({ w with late := w.late.eraseIdx i }.serve call)
    | none => none

end World

end CodexBridge.HaMcp
