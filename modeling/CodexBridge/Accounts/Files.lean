import CodexBridge.Library.Effect
import CodexBridge.Library.Json
import CodexBridge.Library.Runs
import Mathlib.Algebra.GroupWithZero.Nat

/-! # The files of the saved accounts

A registry lists the saved profiles. Each has a directory with a private copy of its sign-in and
perhaps a usage snapshot. A file is replaced through a temporary one, which stays behind where the
process ends meanwhile. Each change of a file may fail or end the process, before or after it took
effect.
-/

namespace CodexBridge.Accounts.Files

open Effect

/-! ## Credentials -/

def maxCredentialBytes : Nat := 1048576

def maxRegistryBytes : Nat := 65536

def maxUsageSnapshotBytes : Nat := 4096

def maxProfiles : Nat := 16

structure Reader (Raw : Type) where
  size : Raw → Nat
  parse : Raw → Option Json
  decode : String → Option Json
  lower : String → String

def get (fields : List (String × Json)) (key : String) : Json :=
  (Json.field? fields key).getD .null

def isIdChar (c : Char) : Bool := decide (33 ≤ c.toNat) && decide (c.toNat ≠ 127)

def isAccountId (s : String) : Bool :=
  decide (1 ≤ s.length) && decide (s.length ≤ 256) && s.toList.all isIdChar

section

variable {Raw : Type} (reader : Reader Raw)

def claimedAccount (tokens : List (String × Json)) (name : String) : Option Json :=
  match get tokens name with
  | .str token =>
    match token.toList.splitOn '.' with
    | _ :: encoded :: _ =>
      (reader.decode (String.ofList encoded)).map fun decoded =>
        match decoded with
        | .obj fields =>
          match (Json.field? fields "https://api.openai.com/auth").getD (.obj []) with
          | .obj claim => get claim "chatgpt_account_id"
          | _ => .null
        | _ => .null
    | _ => none
  | _ => none

def tokenAccount (tokens : List (String × Json)) : Json :=
  let first := (claimedAccount reader tokens "id_token").getD .null
  let found :=
    if first.truthy then first else (claimedAccount reader tokens "access_token").getD first
  if found.truthy then found else get tokens "account_id"

/-- `_credential_account_id`, without its error. -/
def credentialAccountId (raw : Raw) : Option String :=
  match reader.parse raw with
  | some (.obj payload) =>
    if get payload "auth_mode" = .str "chatgpt" then
      match get payload "tokens" with
      | .obj tokens =>
        match tokenAccount reader tokens with
        | .str id => if isAccountId id then some id else none
        | _ => none
      | _ => none
    else none
  | _ => none

structure Profile where
  id : String
  label : String
  accountId : String
  plan : Option String
deriving DecidableEq

structure Registry where
  activeProfileId : Option String
  profiles : List Profile
deriving DecidableEq

structure JsonFile where
  value : Json
  length : Nat

/-- `_PROFILE_ID`. -/
def isProfileId (s : String) : Bool := PyText.isLowerHex 32 s

def isLabelChar (c : Char) : Bool := decide (32 ≤ c.toNat) && decide (c.toNat ≠ 127)

/-- `_label`, without its error. -/
def label? (value : String) : Option String :=
  let label := PyText.strip value
  if 1 ≤ label.length ∧ label.length ≤ 60 ∧ label.toList.all isLabelChar then some label else none

/-- `SAFE_CHATGPT_PLAN_TYPES`. -/
def safePlanTypes : List String :=
  ["free", "go", "plus", "pro", "prolite", "promax", "team", "self_serve_business_usage_based",
    "business", "enterprise_cbp_usage_based", "enterprise", "edu", "unknown"]

/-- `normalize_chatgpt_plan_type`. -/
def normalizePlan (value : Json) : Option String :=
  match value with
  | .str s =>
    let normalized := reader.lower (PyText.strip s)
    if normalized ∈ safePlanTypes then some normalized else none
  | _ => none

/-- One profile of the registry, with the checks that concern it alone. -/
def readProfile : Json → Option Profile
  | .obj fields =>
    if Json.hasExactly fields ["id", "label", "account_id", "plan"] then
      match get fields "id", get fields "label", get fields "account_id", get fields "plan" with
      | .str id, .str label, .str accountId, plan =>
        if isProfileId id ∧ isAccountId accountId ∧ label? label = some label ∧
            (plan = .null ∨ (normalizePlan reader plan).map Json.str = some plan) then
          some ⟨id, label, accountId, plan.str?⟩
        else none
      | _, _, _, _ => none
    else none
  | _ => none

/-- `active_profile_id`: absent, or an id. -/
def readActive : Json → Option (Option String)
  | .null => some none
  | .str s => if isProfileId s then some (some s) else none
  | _ => none

/-- `value["version"] == 1`. -/
def isVersionOne (value : Json) : Bool := value = .int 1 || value = .bool true

/-- What `_registry` accepts. -/
def readRegistry (file : JsonFile) : Option Registry :=
  if file.length = 0 ∨ maxRegistryBytes < file.length then none
  else
    match file.value with
    | .obj fields =>
      match get fields "profiles", readActive (get fields "active_profile_id") with
      | .arr items, some active =>
        if Json.hasExactly fields ["version", "active_profile_id", "profiles"] ∧
            isVersionOne (get fields "version") ∧ items.length ≤ maxProfiles then
          (items.mapM (readProfile reader)).bind fun profiles =>
            if (profiles.map (·.id)).Nodup ∧ (profiles.map (·.accountId)).Nodup ∧
                (∀ id ∈ active, id ∈ profiles.map (·.id)) then
              some ⟨active, profiles⟩
            else none
        else none
      | _, _ => none
    | _ => none

end

/-- The bytes of a character in a JSON string, in ASCII. -/
def escapedLength (c : Char) : Nat :=
  if c ∈ ['"', '\\', '\n', '\r', '\t', Char.ofNat 8, Char.ofNat 12] then 2
  else if 32 ≤ c.toNat ∧ c.toNat < 127 then 1
  else if c.toNat < 65536 then 6
  else 12

def quotedLength (s : String) : Nat := 2 + (s.toList.map escapedLength).sum

def optionalLength (value : Option String) : Nat := (value.map quotedLength).getD 4

def Profile.json (p : Profile) : Json :=
  .obj [("account_id", .str p.accountId), ("id", .str p.id), ("label", .str p.label),
    ("plan", (p.plan.map Json.str).getD .null)]

def Profile.textLength (p : Profile) : Nat :=
  quotedLength p.accountId + quotedLength p.id + quotedLength p.label + optionalLength p.plan +
    (quotedLength "account_id" + quotedLength "id" + quotedLength "label" + quotedLength "plan") + 9

def Registry.json (r : Registry) : Json :=
  .obj [("active_profile_id", (r.activeProfileId.map Json.str).getD .null),
    ("profiles", .arr (r.profiles.map Profile.json)), ("version", .int 1)]

/-- With one byte between two profiles, and the line end. -/
def Registry.textLength (r : Registry) : Nat :=
  optionalLength r.activeProfileId + (r.profiles.map Profile.textLength).sum +
    (r.profiles.length - 1) +
    (quotedLength "active_profile_id" + quotedLength "profiles" + quotedLength "version") + 11

def Registry.file (r : Registry) : JsonFile := ⟨r.json, r.textLength⟩

structure Directory (Raw : Type) where
  auth : Option Raw
  usage : Option Raw
  leftovers : Nat

def Directory.fresh {Raw : Type} : Directory Raw := ⟨none, none, 0⟩

def Directory.isEmpty {Raw : Type} (d : Directory Raw) : Bool :=
  d.auth.isNone && d.usage.isNone && decide (d.leftovers = 0)

/-- How a change of a file ends. It may have taken effect though it raises or the process ends, and
a temporary file may stay behind. -/
inductive Fate
  | done
  | failed (effective leftover : Bool)
  | crashed (effective leftover : Bool)
deriving DecidableEq

def Fate.effective : Fate → Bool
  | .done => true
  | .failed effective _ | .crashed effective _ => effective

def Fate.leftover : Fate → Bool
  | .done => false
  | .failed _ leftover | .crashed _ leftover => leftover

/-- One access to the disk. The app-server may have changed the native file before it. -/
structure Moment (Raw : Type) where
  fate : Fate
  native : Option (Option Raw)

def Moment.quiet {Raw : Type} : Moment Raw := ⟨.done, none⟩

structure State (Raw : Type) where
  registry : Option JsonFile
  directories : String → Option (Directory Raw)
  /-- The native `auth.json`. -/
  native : Option Raw
  script : List (Moment Raw)

def State.initial (Raw : Type) : State Raw := ⟨none, fun _ => none, none, []⟩

inductive Problem
  /-- `AccountProfileError`. -/
  | profile (message : String)
  /-- `WorkspaceNotFoundError`. -/
  | notFound
  | os
deriving DecidableEq

inductive Stop
  | raised (problem : Problem)
  | crashed
deriving DecidableEq

abbrev Routine (Raw α : Type) : Type := Action (State Raw) Stop α

def refuseWith {Raw α : Type} (message : String) : Routine Raw α :=
  raise (.raised (.profile message))

def notFound {Raw α : Type} : Routine Raw α := raise (.raised .notFound)

/-- `try: body except Exception of a kind: handler`. -/
def catching {Raw α : Type} (kind : Problem → Bool) (body handler : Routine Raw α) :
    Routine Raw α :=
  attempt body fun stop =>
    match stop with
    | .raised problem => if kind problem then handler else raise stop
    | .crashed => raise stop

section

variable {Raw : Type}

def State.setDirectory (s : State Raw) (id : String) (d : Option (Directory Raw)) : State Raw :=
  { s with directories := fun i => if i = id then d else s.directories i }

def access : Routine Raw Fate := fun s =>
  let m := s.script.headD .quiet
  (.ok m.fate, { s with script := s.script.tail, native := m.native.getD s.native })

def Fate.end_ : Fate → Routine Raw Unit
  | .done => pure ()
  | .failed _ _ => raise (.raised .os)
  | .crashed _ _ => raise .crashed

def change (edit litter : State Raw → State Raw) (fate : Fate) : Routine Raw Unit := do
  modify fun s => if fate.effective then edit s else s
  modify fun s => if fate.leftover then litter s else s
  fate.end_

def directory (id : String) : Routine Raw (Directory Raw) := do
  let found ← read (·.directories id)
  match found with
  | some d => pure d
  | none => notFound

def changeIn (id : String) (d : Directory Raw) (edit : Directory Raw → Directory Raw)
    (fate : Fate) : Routine Raw Unit := do
  let d' := if fate.effective then edit d else d
  modify fun s => s.setDirectory id (some
    { d' with leftovers := if fate.leftover then d'.leftovers + 1 else d'.leftovers })
  fate.end_

def createDirectory (id : String) : Routine Raw Unit := do
  let fate ← access
  change
    (fun s => if (s.directories id).isSome then s else s.setDirectory id (some .fresh))
    (fun s => s) fate

/-- `atomic_write_bytes` of the sign-in of a profile. -/
def writeAuth (id : String) (raw : Raw) : Routine Raw Unit := do
  let fate ← access
  let d ← directory id
  changeIn id d (fun d => { d with auth := some raw }) fate

def writeUsage (id : String) (raw : Raw) : Routine Raw Unit := do
  let fate ← access
  let d ← directory id
  changeIn id d (fun d => { d with usage := some raw }) fate

/-- `unlink_regular_file`. Nothing is left behind. -/
def unlinkAuth (id : String) : Routine Raw Unit := do
  let fate ← access
  let d ← directory id
  if d.auth.isNone then notFound
  else
    modify fun s =>
      if fate.effective then s.setDirectory id (some { d with auth := none }) else s
    fate.end_

def unlinkUsage (id : String) : Routine Raw Unit := do
  let fate ← access
  let d ← directory id
  if d.usage.isNone then notFound
  else
    modify fun s =>
      if fate.effective then s.setDirectory id (some { d with usage := none }) else s
    fate.end_

def removeEmptyDirectory (id : String) : Routine Raw Unit := do
  let fate ← access
  let d ← directory id
  if ¬ d.isEmpty then raise (.raised .os)
  else
    modify fun s => if fate.effective then s.setDirectory id none else s
    fate.end_

/-- `atomic_write_bytes` and `unlink_regular_file` of the native file. -/
def writeNative (raw : Raw) : Routine Raw Unit := do
  let fate ← access
  change (fun s => { s with native := some raw }) (fun s => s) fate

def unlinkNative : Routine Raw Unit := do
  let fate ← access
  let native ← read (·.native)
  if native.isNone then notFound
  else change (fun s => { s with native := none }) (fun s => s) fate

def saveRegistry (r : Registry) : Routine Raw Unit := do
  let fate ← access
  change (fun s => { s with registry := some r.file }) (fun s => s) fate

variable (reader : Reader Raw)

def readBounded (limit : Nat) (content : Option Raw) : Routine Raw Raw :=
  match content with
  | none => notFound
  | some raw =>
    if reader.size raw = 0 ∨ limit < reader.size raw then
      refuseWith "The saved account file is invalid."
    else pure raw

/-- `_credential_account_id`. -/
def accountIdOf (raw : Raw) : Routine Raw String :=
  match credentialAccountId reader raw with
  | some id => pure id
  | none => refuseWith "The ChatGPT account identity is unavailable."

def registry : Routine Raw Registry := do
  let file ← read (·.registry)
  match file with
  | none => pure ⟨none, []⟩
  | some file =>
    match readRegistry reader file with
    | some r => pure r
    | none => refuseWith "The saved account list needs repair."

def currentCredential : Routine Raw (Raw × String) := do
  let _ ← access
  let native ← read (·.native)
  let raw ← readBounded reader maxCredentialBytes native
  let accountId ← accountIdOf reader raw
  pure (raw, accountId)

/-- `AccountProfileError` and `WorkspaceNotFoundError`. -/
def isUnreadable : Problem → Bool
  | .profile _ | .notFound => true
  | .os => false

/-- `list_profiles`: each with whether it is active. -/
def listProfiles : Routine Raw (List (Profile × Bool)) := do
  let r ← registry reader
  let current ← catching isUnreadable
    (do
      let current ← currentCredential reader
      pure (some current.2))
    (pure none)
  pure (r.profiles.map fun p => (p, decide (some p.accountId = current)))

def Registry.profileOf (r : Registry) (accountId : String) : Option Profile :=
  r.profiles.find? (·.accountId = accountId)

def Registry.profile? (r : Registry) (id : String) : Option Profile :=
  r.profiles.find? (·.id = id)

def refreshCurrentIfSaved : Routine Raw Unit := do
  let current ← catching isUnreadable
    (do
      let current ← currentCredential reader
      pure (some current))
    (pure none)
  match current with
  | none => pure ()
  | some (raw, accountId) =>
    let r ← registry reader
    match r.profileOf accountId with
    | none => pure ()
    | some p => writeAuth p.id raw

def preserveCurrentForNewLogin : Routine Raw Raw := do
  let (raw, accountId) ← currentCredential reader
  let r ← registry reader
  match r.profileOf accountId with
  | none => refuseWith "Save the current account before adding another."
  | some p =>
    writeAuth p.id raw
    pure raw

def responsePlan (response : Json) : Routine Raw (Option String) :=
  match response with
  | .obj fields =>
    match get fields "account" with
    | .obj account =>
      if get account "type" = .str "chatgpt" then
        pure (normalizePlan reader (get account "planType"))
      else refuseWith "Only ChatGPT sign-ins can be saved."
    | _ => refuseWith "Sign in with ChatGPT before saving this account."
  | _ => refuseWith "Sign in with ChatGPT before saving this account."

/-- `save_current`, with the id that `uuid4` gives. -/
def saveCurrent (label : String) (response : Json) (drawn : String) : Routine Raw Profile := do
  match label? label with
  | none => refuseWith "Enter an account label of up to 60 characters."
  | some label =>
    let plan ← responsePlan reader response
    let (raw, accountId) ← currentCredential reader
    let r ← registry reader
    match r.profileOf accountId with
    | none =>
      if maxProfiles ≤ r.profiles.length then
        refuseWith "The saved account limit has been reached."
      else
        createDirectory drawn
        writeAuth drawn raw
        let p : Profile := ⟨drawn, label, accountId, plan⟩
        saveRegistry ⟨some drawn, r.profiles ++ [p]⟩
        pure p
    | some existing =>
      let p : Profile := { existing with label := label, plan := plan }
      writeAuth existing.id raw
      saveRegistry ⟨some existing.id,
        r.profiles.map fun q => if q.accountId = accountId then p else q⟩
      pure p

def targetCredential (id : String) : Routine Raw (Raw × String) :=
  if ¬ isProfileId id then refuseWith "The saved account was not found."
  else do
    let r ← registry reader
    match r.profile? id with
    | none => refuseWith "The saved account was not found."
    | some p =>
      let d ← read (·.directories id)
      let raw ← readBounded reader maxCredentialBytes (d.bind (·.auth))
      let accountId ← accountIdOf reader raw
      if accountId ≠ p.accountId then refuseWith "The saved account identity has changed."
      else pure (raw, p.accountId)

def refreshSavedCredential [DecidableEq Raw] (id : String) (previous refreshed : Raw) :
    Routine Raw Bool :=
  if reader.size refreshed = 0 ∨ maxCredentialBytes < reader.size refreshed then pure false
  else do
    let (current, accountId) ← targetCredential reader id
    if current ≠ previous then pure false
    else
      let refreshedId ← accountIdOf reader refreshed
      if refreshedId ≠ accountId then pure false
      else
        if refreshed ≠ current then writeAuth id refreshed
        pure true

def writeUsageSnapshot (id accountId : String) (raw : Raw) : Routine Raw Unit :=
  if reader.size raw = 0 ∨ maxUsageSnapshotBytes < reader.size raw then
    refuseWith "The saved account usage is invalid."
  else do
    let current ← targetCredential reader id
    if current.2 ≠ accountId then refuseWith "The saved account identity has changed."
    else writeUsage id raw

def activateCredential (raw : Raw) : Routine Raw Unit :=
  if reader.size raw = 0 ∨ maxCredentialBytes < reader.size raw then
    refuseWith "The saved account file is invalid."
  else do
    let _ ← accountIdOf reader raw
    writeNative raw

def restoreCredential (raw : Option Raw) : Routine Raw Unit := do
  match raw with
  | none => catching (· = .notFound) unlinkNative (pure ())
  | some raw =>
    if reader.size raw = 0 ∨ maxCredentialBytes < reader.size raw then
      refuseWith "The previous account file is invalid."
    else writeNative raw
  let r ← registry reader
  let current := raw.bind (credentialAccountId reader)
  saveRegistry ⟨(r.profiles.find? fun p => some p.accountId = current).map (·.id), r.profiles⟩

def commitActive (id : String) : Routine Raw Unit := do
  let r ← registry reader
  if (r.profile? id).isNone then refuseWith "The saved account was not found."
  else saveRegistry ⟨some id, r.profiles⟩

def removeInactive (id : String) : Routine Raw Unit :=
  if ¬ isProfileId id then refuseWith "The saved account was not found."
  else do
    let r ← registry reader
    match r.profile? id with
    | none => refuseWith "The saved account was not found."
    | some p =>
      let listed ← listProfiles reader
      if listed.any fun item => decide (item.1.id = id) && item.2 then
        refuseWith "Switch away from this account before removing it."
      else
        catching (· = .notFound) (unlinkUsage id) (pure ())
        unlinkAuth id
        removeEmptyDirectory id
        saveRegistry ⟨if r.activeProfileId = some id then none else r.activeProfileId,
          r.profiles.erase p⟩

end

inductive Step (Raw : Type)
  | saveCurrent (label : String) (response : Json) (drawn : String) (script : List (Moment Raw))
  | refreshCurrentIfSaved (script : List (Moment Raw))
  | preserveCurrentForNewLogin (script : List (Moment Raw))
  | refreshSavedCredential (id : String) (previous refreshed : Raw) (script : List (Moment Raw))
  | writeUsageSnapshot (id accountId : String) (raw : Raw) (script : List (Moment Raw))
  | activateCredential (raw : Raw) (script : List (Moment Raw))
  | restoreCredential (raw : Option Raw) (script : List (Moment Raw))
  | commitActive (id : String) (script : List (Moment Raw))
  | removeInactive (id : String) (script : List (Moment Raw))

section

variable {Raw : Type} [DecidableEq Raw] (reader : Reader Raw)

def run {α : Type} (c : Routine Raw α) (script : List (Moment Raw)) (s : State Raw) : State Raw :=
  { (c { s with script := script }).2 with script := [] }

def next (s : State Raw) : Step Raw → Option (State Raw)
  | .saveCurrent label response drawn script =>
    if isProfileId drawn ∧ (s.directories drawn).isNone then
      some (run (saveCurrent reader label response drawn) script s)
    else none
  | .refreshCurrentIfSaved script => some (run (refreshCurrentIfSaved reader) script s)
  | .preserveCurrentForNewLogin script => some (run (preserveCurrentForNewLogin reader) script s)
  | .refreshSavedCredential id previous refreshed script =>
    some (run (refreshSavedCredential reader id previous refreshed) script s)
  | .writeUsageSnapshot id accountId raw script =>
    some (run (writeUsageSnapshot reader id accountId raw) script s)
  | .activateCredential raw script => some (run (activateCredential reader raw) script s)
  | .restoreCredential raw script => some (run (restoreCredential reader raw) script s)
  | .commitActive id script => some (run (commitActive reader id) script s)
  | .removeInactive id script => some (run (removeInactive reader id) script s)

end

end CodexBridge.Accounts.Files
