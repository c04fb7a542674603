import CodexBridge.Library.Dict

/-! # Saved sign-ins

The private copies of sign-ins, the native `auth.json`, and the operations that move
credentials between them. A sign-in of an account is a sequence of versions: a refresh at
the provider issues the next one, and only for the newest. Each read, write and refresh is
one step, so that the managed app-server can refresh between any two of them.
-/

namespace CodexBridge.Accounts

/-! ## Credentials -/

/-- The content of an `auth.json`; one without an account id is not a ChatGPT sign-in. -/
structure Credential where
  account : Option String
  version : Nat
deriving DecidableEq

def MAX_PROFILES : Nat := 16

inductive Write
  | done
  | failed (effective : Bool)
deriving DecidableEq

def Write.effective : Write → Bool
  | .done => true
  | .failed effective => effective

/-- `_switch_account_profile_under_lock`, with the local variables it has assigned. -/
inductive Switch
  | starting
  | targeted (target : Credential)
  | readied (target : Credential) (previous : Option Credential)
  /-- `refresh_current_if_saved` has read the native file. -/
  | copying (target : Credential) (previous : Option Credential) (raw : Credential)
  | copied (target : Credential) (previous : Option Credential)
  | installed (target : Credential) (previous : Option Credential)
  | restoring (previous : Option Credential)

inductive Prepare
  | starting
  /-- `preserve_current_for_new_login` has read the native file. -/
  | copying (raw : Credential)
  | preserved (previous : Credential)
  | detached (previous : Credential)
  | restoring (previous : Credential)

/-- The operation that holds the auth gate. -/
inductive Operation
  | save (raw : Option Credential)
  | switch (profile : String) (wasSignedIn : Bool) (stage : Switch)
  | prepare (stage : Prepare)
  | remove (profile : String)

/-- A usage read of an inactive profile, under `credential_operation`. -/
inductive Probe
  | checked (profile : String)
  /-- The temporary app-server runs over a copy of `raw`, which now is `held`. -/
  | running (profile : String) (raw held : Credential)
  | stopped (profile : String) (raw held : Credential)

structure World where
  newest : String → Nat
  /-- The native `auth.json`. -/
  auth : Option Credential
  /-- `profiles.json`: the account of each profile. -/
  registry : Dict String String
  activeProfile : Option String
  /-- The `auth.json` in the directory of each profile. -/
  saved : Dict String Credential
  operation : Option Operation
  probe : Option Probe
  drawn : List String

inductive Step
  /-- The managed app-server refreshes the sign-in in `auth.json`. -/
  | refresh
  /-- A device login completes over an absent `auth.json`. -/
  | signIn (account : String)
  | beginSave
  | beginSwitch (profile : String) (wasSignedIn : Bool)
  | beginPrepare
  | beginRemove (profile : String)
  /-- An account read, a provider check or a restart fails or times out. -/
  | fail
  | complete
  | readTarget
  | readPrevious
  /-- `current_credential` for a copy into the profile. -/
  | readCurrent
  | writeSaved (o : Write) (drawn : String)
  | activate (o : Write)
  | detach (o : Write)
  | restore (o : Write)
  | removeInactive (o : Write)
  | beginProbe (profile : String)
  | readSaved
  | refreshProbe
  | stopProbe
  | storeProbe (o : Write)
  | failProbe

namespace World

def initial : World where
  newest := fun _ => 0
  auth := none
  registry := Dict.empty
  activeProfile := none
  saved := Dict.empty
  operation := none
  probe := none
  drawn := []

def setOperation (w : World) (operation : Option Operation) : World :=
  { w with operation := operation }

def setProbe (w : World) (probe : Option Probe) : World := { w with probe := probe }

def setAuth (w : World) (auth : Option Credential) : World := { w with auth := auth }

def setSaved (w : World) (profile : String) (c : Credential) : World :=
  { w with saved := w.saved.set profile c }

def issue (w : World) (account : String) : World :=
  { w with newest := fun a => if a = account then w.newest a + 1 else w.newest a }

def currentAccount (w : World) : Option String := w.auth.bind Credential.account

def profileOf (w : World) (account : String) : Option String :=
  (w.registry.entries.find? fun e => e.2 = account).map Prod.fst

def targetCredential (w : World) (profile : String) : Option Credential :=
  match w.registry.get? profile, w.saved.get? profile with
  | some account, some c => if c.account = some account then some c else none
  | _, _ => none

def refresh (w : World) : Option World :=
  match w.auth with
  | some ⟨some a, v⟩ =>
    if v = w.newest a then some ((w.issue a).setAuth (some ⟨some a, v + 1⟩)) else none
  | _ => none

def signIn (w : World) (account : String) : Option World :=
  if w.operation = none ∧ w.auth = none then
    some ((w.issue account).setAuth (some ⟨some account, w.newest account + 1⟩))
  else none

def begin_ (w : World) (operation : Operation) : Option World :=
  if w.operation = none then some (w.setOperation (some operation)) else none

/-- A step that neither reads nor writes a credential fails. -/
def fail (w : World) : Option World :=
  match w.operation with
  | some (.switch profile wasSignedIn (.installed _ previous)) =>
    some (w.setOperation (some (.switch profile wasSignedIn (.restoring previous))))
  | some (.prepare (.detached previous)) =>
    some (w.setOperation (some (.prepare (.restoring previous))))
  | some (.switch _ _ (.restoring _)) | some (.prepare (.restoring _)) => none
  | some _ => some (w.setOperation none)
  | none => none

/-- The last checks of a switch and of a detachment; the switch then commits. -/
def complete (w : World) : Option World :=
  match w.operation with
  | some (.switch profile wasSignedIn (.installed target previous)) =>
    if w.currentAccount = target.account then
      some ({ w with activeProfile := some profile }.setOperation none)
    else some (w.setOperation (some (.switch profile wasSignedIn (.restoring previous))))
  | some (.prepare (.detached _)) => some (w.setOperation none)
  | _ => none

/-- The switch has entered `credential_operation`, which no usage read holds. -/
def readTarget (w : World) : Option World :=
  match w.operation, w.probe with
  | some (.switch profile wasSignedIn .starting), none =>
    match w.targetCredential profile with
    | some target => some (w.setOperation (some (.switch profile wasSignedIn (.targeted target))))
    | none => some (w.setOperation none)
  | _, _ => none

def readPrevious (w : World) : Option World :=
  match w.operation with
  | some (.switch profile wasSignedIn (.targeted target)) =>
    if wasSignedIn then
      some (w.setOperation (some (.switch profile wasSignedIn (.readied target w.auth))))
    else some (w.setOperation (some (.switch profile wasSignedIn (.copied target w.auth))))
  | _ => none

def readCurrent (w : World) : Option World :=
  match w.operation with
  | some (.save none) =>
    match w.auth with
    | some ⟨some a, v⟩ => some (w.setOperation (some (.save (some ⟨some a, v⟩))))
    | _ => some (w.setOperation none)
  | some (.switch profile wasSignedIn (.readied target previous)) =>
    match w.auth with
    | some ⟨some a, v⟩ => some (w.setOperation (some
        (.switch profile wasSignedIn (.copying target previous ⟨some a, v⟩))))
    | _ => some (w.setOperation (some (.switch profile wasSignedIn (.copied target previous))))
  | some (.prepare .starting) =>
    match w.auth with
    | some ⟨some a, v⟩ => some (w.setOperation (some (.prepare (.copying ⟨some a, v⟩))))
    | _ => some (w.setOperation none)
  | _ => none

def copy (w : World) (profile : String) (raw : Credential) (o : Write) : World :=
  if o.effective then w.setSaved profile raw else w

/-- `save_current` of an account that has no profile yet. -/
def addProfile (w : World) (profile account : String) (raw : Credential) (o : Write) : World :=
  if w.registry.size ≥ MAX_PROFILES then w
  else
    let written := { w.copy profile raw o with drawn := profile :: w.drawn }
    -- the registry is written last
    if o = .done then
      { written with
        registry := w.registry.set profile account
        activeProfile := some profile }
    else written

def writeSaved (w : World) (o : Write) (drawn : String) : Option World :=
  match w.operation with
  | some (.save (some ⟨some a, v⟩)) =>
    match w.profileOf a with
    | some profile =>
      let written := (w.copy profile ⟨some a, v⟩ o).setOperation none
      some (if o = .done then { written with activeProfile := some profile } else written)
    | none =>
      if w.drawn.contains drawn then none
      else some ((w.addProfile drawn a ⟨some a, v⟩ o).setOperation none)
  | some (.switch profile wasSignedIn (.copying target previous ⟨some a, v⟩)) =>
    let onward := some (Operation.switch profile wasSignedIn (.copied target previous))
    match w.profileOf a with
    | some mine => some ((w.copy mine ⟨some a, v⟩ o).setOperation
        (if o = .done then onward else none))
    | none => some (w.setOperation onward)
  | some (.prepare (.copying ⟨some a, v⟩)) =>
    match w.profileOf a with
    | some mine => some ((w.copy mine ⟨some a, v⟩ o).setOperation
        (if o = .done then some (.prepare (.preserved ⟨some a, v⟩)) else none))
    | none => some (w.setOperation none)
  | _ => none

/-- `activate_credential`. A write that fails is not followed by a rollback. -/
def activate (w : World) (o : Write) : Option World :=
  match w.operation with
  | some (.switch profile wasSignedIn (.copied target previous)) =>
    let written := if o.effective then w.setAuth (some target) else w
    some (written.setOperation (if o = .done then
      some (.switch profile wasSignedIn (.installed target previous)) else none))
  | _ => none

def detach (w : World) (o : Write) : Option World :=
  match w.operation with
  | some (.prepare (.preserved previous)) =>
    let unlinked := if o.effective then w.setAuth none else w
    some (if o = .done then
      { unlinked with activeProfile := none }.setOperation (some (.prepare (.detached previous)))
      else unlinked.setOperation (some (.prepare (.restoring previous))))
  | _ => none

/-- `restore_credential(previous)` of a rollback, after which the operation ends. -/
def restoreTo (w : World) (previous : Option Credential) (o : Write) : World :=
  let written := if o.effective then w.setAuth previous else w
  { written.setOperation none with
    activeProfile :=
      if o = .done then (previous.bind Credential.account).bind w.profileOf else w.activeProfile }

def restore (w : World) (o : Write) : Option World :=
  match w.operation with
  | some (.switch _ _ (.restoring previous)) => some (w.restoreTo previous o)
  | some (.prepare (.restoring previous)) => some (w.restoreTo (some previous) o)
  | _ => none

/-- `remove_inactive`: the credential goes first, the registry entry last. -/
def removeInactive (w : World) (o : Write) : Option World :=
  match w.operation with
  | some (.remove profile) =>
    match w.registry.get? profile with
    | none => some (w.setOperation none)
    | some account =>
      -- a missing credential file ends the removal as well
      if w.currentAccount = some account ∨ w.saved.get? profile = none then
        some (w.setOperation none)
      else
        let unlinked := if o.effective then { w with saved := w.saved.erase profile } else w
        let left := if o = .done then
          { unlinked with
            registry := w.registry.erase profile
            activeProfile :=
              if w.activeProfile = some profile then none else w.activeProfile }
          else unlinked
        some (left.setOperation none)
  | _ => none

def switching (w : World) : Bool :=
  match w.operation with
  | some (.switch _ _ .starting) => false
  | some (.switch _ _ _) => true
  | _ => false

def beginProbe (w : World) (profile : String) : Option World :=
  if w.probe = none ∧ w.switching = false then
    match w.registry.get? profile with
    | none => none
    | some account =>
      if w.currentAccount = some account then none
      else some (w.setProbe (some (.checked profile)))
  else none

def readSaved (w : World) : Option World :=
  match w.probe with
  | some (.checked profile) =>
    match w.targetCredential profile with
    | some raw => some (w.setProbe (some (.running profile raw raw)))
    | none => some (w.setProbe none)
  | _ => none

/-- `account/read` with a refresh, in the temporary home. -/
def refreshProbe (w : World) : Option World :=
  match w.probe with
  | some (.running profile raw ⟨some a, v⟩) =>
    if v = w.newest a then
      some ((w.issue a).setProbe (some (.running profile raw ⟨some a, v + 1⟩)))
    else none
  | _ => none

def stopProbe (w : World) : Option World :=
  match w.probe with
  | some (.running profile raw held) => some (w.setProbe (some (.stopped profile raw held)))
  | _ => none

/-- `refresh_saved_credential` keeps the new token. -/
def keeps (w : World) (profile : String) (raw held : Credential) : Bool :=
  match w.targetCredential profile with
  | some current => current = raw && held.account = current.account
  | none => false

def storeProbe (w : World) (o : Write) : Option World :=
  match w.probe with
  | some (.stopped profile raw held) =>
    some ((if w.keeps profile raw held then w.copy profile held o else w).setProbe none)
  | _ => none

/-- Any other end of a usage read; the temporary home is removed. -/
def failProbe (w : World) : Option World :=
  if w.probe = none then none else some (w.setProbe none)

def next (w : World) : Step → Option World
  | .refresh => w.refresh
  | .signIn account => w.signIn account
  | .beginSave => w.begin_ (.save none)
  | .beginSwitch profile wasSignedIn => w.begin_ (.switch profile wasSignedIn .starting)
  | .beginPrepare => w.begin_ (.prepare .starting)
  | .beginRemove profile => w.begin_ (.remove profile)
  | .fail => w.fail
  | .complete => w.complete
  | .readTarget => w.readTarget
  | .readPrevious => w.readPrevious
  | .readCurrent => w.readCurrent
  | .writeSaved o drawn => w.writeSaved o drawn
  | .activate o => w.activate o
  | .detach o => w.detach o
  | .restore o => w.restore o
  | .removeInactive o => w.removeInactive o
  | .beginProbe profile => w.beginProbe profile
  | .readSaved => w.readSaved
  | .refreshProbe => w.refreshProbe
  | .stopProbe => w.stopProbe
  | .storeProbe o => w.storeProbe o
  | .failProbe => w.failProbe

end World

end CodexBridge.Accounts
