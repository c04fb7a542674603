import CodexBridge.Library.Dict
import CodexBridge.Library.Effect
import CodexBridge.Mcp.Credentials
import CodexBridge.Mcp.LocalPolicy

/-! # The registry of relayed MCP servers

The relay keeps a record for each of its servers, in memory and in a registry file. An edit of a
destination first writes the old records to a journal, which replaces the registry on the next
start. Each write may fail or end the process, before or after it took effect.
-/

namespace CodexBridge.Mcp.Relay

open Effect Url

/-! ## Records -/

structure McpRecord where
  url : String
  addresses : List Text
  token : String
  isLocal : Bool
  credential : McpCredential

/-- `dict[str, McpRecord]`. -/
abbrev Records := Dict String McpRecord

/-- What the relay uses of the standard library, and its setting. -/
structure Host where
  network : Network
  /-- The length of `json.dumps(value, ensure_ascii=True)`. -/
  length : Json → Nat
  localEnabled : Bool

def maxRegistry : Nat := 512 * 1024

def maxServers : Nat := 32

def isServerName (name : String) : Bool :=
  match name.toList with
  | [] => false
  | c :: rest =>
    ('a' ≤ c && c ≤ 'z') && decide (rest.length ≤ 63) &&
      rest.all fun d => ('a' ≤ d && d ≤ 'z') || d.isDigit || d = '_' || d = '-'

def isRelayToken (token : String) : Bool := PyText.isLowerHex 64 token

structure JsonFile where
  value : Json
  length : Nat
deriving DecidableEq

def nullFile : JsonFile := ⟨.null, 4⟩

def modeText : CredentialMode → String
  | .open => "none"
  | .bearer => "bearer"
  | .headers => "headers"

/-- `McpCredential.stored`. -/
def storedCredential (c : McpCredential) : Json :=
  .obj [("mode", .str (modeText c.mode)),
    ("headers", .arr (c.headers.map fun pair => .arr [.str pair.1, .str pair.2]))]

def recordJson (r : McpRecord) : Json :=
  .obj [("url", .str r.url), ("addresses", .arr (r.addresses.map fun a => .str (String.ofList a))),
    ("token", .str r.token), ("local", .bool r.isLocal),
    ("credential", storedCredential r.credential)]

/-- The payload of `_save`. -/
def payload (records : Records) : Json :=
  .obj [("version", .int 2), ("servers", .obj (records.entries.map fun e => (e.1, recordJson e.2)))]

def recordKeys (version : Int) : List String :=
  if version = 1 then ["url", "addresses", "token"]
  else ["url", "addresses", "token", "local", "credential"]

section

variable (network : Network)

def readAddresses (isLocal : Bool) : Json → Option (List Text)
  | .arr items =>
    (items.mapM fun item => (Json.str? item).map String.toList).bind
      (checkedAddresses network isLocal)
  | _ => none

def readCredential (version : Int) (fields : List (String × Json)) : Option McpCredential :=
  if version = 2 then (Json.field? fields "credential").bind parseStored else some ⟨.open, []⟩

/-- One record of the registry; there is no result where `_load` raises. -/
def readRecord (version : Int) : Json → Option McpRecord
  | .obj fields =>
    if Json.hasExactly fields (recordKeys version) then
      ((Json.field? fields "token").bind Json.str?).bind fun token =>
        if isRelayToken token then
          ((Json.field? fields "local").getD (.bool true)).bool?.bind fun isLocal =>
            (readCredential version fields).bind fun credential =>
              if !isLocal && credential.mode = .open then none
              else
                ((Json.field? fields "url").bind (canonicalLocalUrl network isLocal)).bind
                  fun url =>
                    ((Json.field? fields "addresses").bind (readAddresses network isLocal)).map
                      fun addresses => ⟨url, addresses, token, isLocal, credential⟩
        else none
    else none
  | _ => none

def readEntry (version : Int) (item : String × Json) : Option (String × McpRecord) :=
  if isServerName item.1 then (readRecord network version item.2).map fun r => (item.1, r)
  else none

/-- What `_load` reads from a file. -/
def readRegistry (file : JsonFile) : Option Records :=
  if maxRegistry < file.length then none
  else
    match file.value with
    | .obj fields =>
      if Json.hasExactly fields ["version", "servers"] then
        match Json.field? fields "version", Json.field? fields "servers" with
        | some (.int version), some (.obj items) =>
          if (version = 1 ∨ version = 2) ∧ items.length ≤ maxServers then
            (items.mapM (readEntry network version)).map Dict.ofList
          else none
        | _, _ => none
      else none
    | _ => none

end

/-- `servers.json` and `servers.pending.json`. -/
structure Disk where
  registry : Option JsonFile
  journal : Option JsonFile

inductive FileName
  | servers
  | pending

def Disk.put (disk : Disk) (name : FileName) (file : JsonFile) : Disk :=
  match name with
  | .servers => { disk with registry := some file }
  | .pending => { disk with journal := some file }

def Disk.isRecovering (disk : Disk) : Bool := disk.journal.any (· ≠ nullFile)

def Disk.source (disk : Disk) : Option JsonFile :=
  if disk.isRecovering then disk.journal else disk.registry

inductive Fate
  | done
  | failed (effective : Bool)
  | crashed (effective : Bool)

def Fate.effective : Fate → Bool
  | .done => true
  | .failed effective | .crashed effective => effective

/-- The relay while it runs, with the fates of the writes to come. -/
structure State where
  disk : Disk
  records : Records
  active : List String
  fates : List Fate

inductive Problem
  /-- `LocalMcpError`. -/
  | localMcp
  /-- `McpRelayRecoveryError`. -/
  | recovery
  /-- `KeyError`. -/
  | key
  | os

inductive Halt
  | raised (problem : Problem)
  | crashed

abbrev Routine (α : Type) : Type := Action State Halt α

def refuseLocal {α : Type} : Routine α := raise (.raised .localMcp)

def Fate.end_ : Fate → Routine Unit
  | .done => pure ()
  | .failed _ => raise (.raised .os)
  | .crashed _ => raise .crashed

def State.fate (s : State) : Fate := s.fates.headD .done

/-- `atomic_write_bytes`. -/
def atomicWrite (name : FileName) (file : JsonFile) : Routine Unit := do
  let fate ← read State.fate
  modify fun s =>
    { s with
      disk := if fate.effective then s.disk.put name file else s.disk
      fates := s.fates.tail }
  fate.end_

def excepting (body : Routine Unit) (handler : Routine Unit) : Routine Unit :=
  attempt body fun halt =>
    match halt with
    | .raised _ => handler
    | .crashed => raise .crashed

section

variable (host : Host)

def save (records : Records) (name : FileName) : Routine Unit :=
  if maxRegistry < host.length (payload records) then refuseLocal
  else atomicWrite name ⟨payload records, host.length (payload records)⟩

def clearJournal : Routine Unit := atomicWrite .pending nullFile

/-- `_load`. After a failure the relay is closed, whatever was read by then. -/
def load : Routine Unit := do
  modify fun s => { s with records := .empty }
  let disk ← read State.disk
  match disk.source with
  | none => pure ()
  | some file =>
    match readRegistry host.network file with
    | none => refuseLocal
    | some records =>
      modify fun s => { s with records := records }
      if disk.isRecovering then do
        save host records .servers
        clearJournal
      else pure ()

/-- A credential that `parse_credential` gave. -/
structure Credential where
  value : McpCredential
  parsed : ∃ source, parsePlain source = some value

/-- `secrets.token_hex(32)`. -/
structure Token where
  value : String
  valid : isRelayToken value = true

/-- What the resolver answers; no answer where it fails or takes too long. -/
abbrev Answers := Option (List Text)

def added (records : Records) (name : String) (url : Json) (isLocal : Bool)
    (credential : Credential) (answers : Answers) (token : Token) : Except Problem Records :=
  if !isServerName name || (isLocal && !host.localEnabled) ||
      (!isLocal && credential.value.mode = .open) then .error .localMcp
  else
    match canonicalLocalUrl host.network isLocal url,
        answers.bind (checkedAddresses host.network isLocal) with
    | some canonical, some addresses =>
      if records.contains name || decide (maxServers ≤ records.size) then .error .localMcp
      else .ok (records.set name ⟨canonical, addresses, token.value, isLocal, credential.value⟩)
    | _, _ => .error .localMcp

def add (name : String) (url : Json) (isLocal : Bool) (credential : Credential)
    (answers : Answers) (token : Token) : Routine Unit := do
  let records ← read State.records
  let updated ← lift ((added host records name url isLocal credential answers token).mapError
    Halt.raised)
  save host updated .servers
  modify fun s => { s with records := updated }

/-- A credential that is not `"none"`, as the callers of `replace_credential` give it. -/
structure Secret where
  credential : Credential
  closed : credential.value.mode ≠ .open

/-- The records with a new credential, as `replace_credential` saves them. -/
def replaced (records : Records) (name : String) (credential : Option Secret) :
    Except Problem Records :=
  match records.get? name with
  | none => .error .key
  | some old =>
    if old.credential.mode = .open then .error .localMcp
    else
      .ok (records.set name { old with
        credential := (credential.map (·.credential.value)).getD ⟨old.credential.mode, []⟩ })

def replaceCredential (name : String) (credential : Option Secret) : Routine Unit := do
  let records ← read State.records
  let updated ← lift ((replaced records name credential).mapError Halt.raised)
  modify fun s => { s with active := s.active.filter (· ≠ name) }
  save host updated .servers
  modify fun s => { s with records := updated }

def editedCredential (old : McpCredential) (action : String) (credential : Option Credential) :
    Option McpCredential :=
  if action = "replace" then
    (credential.map (·.value)).filter fun c => c.mode ≠ .open
  else if action = "remove" then some ⟨old.mode, []⟩
  else if action = "keep" then some old
  else none

/-- The records with a new destination, as `edit_paused_endpoint` saves them. -/
def edited (records : Records) (active : List String) (name : String) (url : Json)
    (action : String) (credential : Option Credential) (answers : Answers) :
    Except Problem Records :=
  match records.get? name with
  | none => .error .key
  | some old =>
    if active.contains name then .error .localMcp
    else
      match canonicalLocalUrl host.network old.isLocal url,
          answers.bind (checkedAddresses host.network old.isLocal),
          editedCredential old.credential action credential with
      | some canonical, some addresses, some auth =>
        .ok (records.set name
          { old with url := canonical, addresses := addresses, credential := auth })
      | _, _, _ => .error .localMcp

def journaled (records updated : Records) : Routine Unit := do
  save host records .pending
  save host updated .servers
  clearJournal

def rollBack (records : Records) : Routine Unit := do
  excepting
    (do save host records .servers
        clearJournal)
    (raise (.raised .recovery))
  refuseLocal

def editPausedEndpoint (name : String) (url : Json) (action : String)
    (credential : Option Credential) (answers : Answers) : Routine Unit := do
  let records ← read State.records
  let active ← read State.active
  let updated ← lift ((edited host records active name url action credential answers).mapError
    Halt.raised)
  excepting (journaled host records updated) (rollBack host records)
  modify fun s => { s with records := updated }

def dropped (records : Records) (names : List String) : List String :=
  records.keys.filter (· ∉ names)

def retain (names : List String) : Routine Unit := do
  let records ← read State.records
  if (dropped records names).isEmpty then pure ()
  else
    let updated := records.filter fun name _ => name ∈ names
    modify fun s => { s with active := s.active.filter (· ∉ dropped records names) }
    save host updated .servers
    modify fun s => { s with records := updated }

def remove (name : String) : Routine Unit := do
  let records ← read State.records
  retain host (records.keys.filter (· ≠ name))

/-- `native_config`, without its answer. -/
def nativeConfig (name : String) (active : Bool) : Routine Unit := do
  let records ← read State.records
  match records.get? name with
  | none => refuseLocal
  | some record =>
    if record.isLocal && !host.localEnabled then refuseLocal
    else
      modify fun s =>
        { s with active := if active then name :: s.active else s.active.filter (· ≠ name) }

inductive Call
  | add (name : String) (url : Json) (isLocal : Bool) (credential : Credential) (answers : Answers)
      (token : Token)
  | replaceCredential (name : String) (credential : Option Secret)
  | editPausedEndpoint (name : String) (url : Json) (action : String)
      (credential : Option Credential) (answers : Answers)
  | retain (names : List String)
  | remove (name : String)
  | nativeConfig (name : String) (active : Bool)

def perform : Call → Routine Unit
  | .add name url isLocal credential answers token =>
    add host name url isLocal credential answers token
  | .replaceCredential name credential => replaceCredential host name credential
  | .editPausedEndpoint name url action credential answers =>
    editPausedEndpoint host name url action credential answers
  | .retain names => retain host names
  | .remove name => remove host name
  | .nativeConfig name active => nativeConfig host name active

end

end CodexBridge.Mcp.Relay
