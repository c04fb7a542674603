import CodexBridge.Library.Runs
import CodexBridge.Mcp.RelayFiles

/-! # Runs of the relay

In a run the relay is started, called and stopped, and any write may fail or end the process. The
outcomes of the calls are kept for each server. Below that stands what each routine leaves on the
disk, by what the next start would load.
-/

namespace CodexBridge.Mcp.Relay

open Effect Url

/-! ## Runs -/

structure Outcome where
  settled : Option McpRecord
  tried : List (Option McpRecord)

def Outcome.Allows (outcome : Outcome) (record : Option McpRecord) : Prop :=
  record = outcome.settled ∨ record ∈ outcome.tried

def Outcome.after (outcome : Outcome) (record : Option McpRecord) (returned : Bool) : Outcome :=
  if returned then ⟨record, []⟩ else { outcome with tried := record :: outcome.tried }

structure World where
  disk : Disk
  /-- `_records` and `_active`, while the relay runs. -/
  process : Option (Records × List String)
  outcomes : String → Outcome

/-- The servers that a call changes, and the records with which it does so. There are none where
it is refused or finds nothing to remove. -/
def Call.goal (host : Host) (records : Records) (active : List String) :
    Call → Option (List String × Records)
  | .add name url isLocal credential answers token =>
    (added host records name url isLocal credential answers token).toOption.map ([name], ·)
  | .replaceCredential name credential =>
    (replaced records name credential).toOption.map ([name], ·)
  | .editPausedEndpoint name url action credential answers =>
    (edited host records active name url action credential answers).toOption.map ([name], ·)
  | .retain names => retainGoal names
  | .remove name => retainGoal (records.keys.filter (· ≠ name))
  | .nativeConfig _ _ => none
where
  retainGoal (names : List String) : Option (List String × Records) :=
    if (dropped records names).isEmpty then none
    else some (dropped records names, records.filter fun name _ => name ∈ names)

def recorded (outcomes : String → Outcome) (goal : Option (List String × Records))
    (returned : Bool) : String → Outcome := fun name =>
  match goal with
  | none => outcomes name
  | some (names, updated) =>
    if name ∈ names then (outcomes name).after (updated.get? name) returned else outcomes name

inductive Event
  | start (fates : List Fate)
  | call (call : Call) (fates : List Fate)
  | stop

def returns {ε α : Type} : Except ε α → Bool
  | .ok _ => true
  | .error _ => false

/-- The memory that a routine leaves, unless the process ended. -/
def memoryAfter (result : Except Halt Unit × State) : Option (Records × List String) :=
  match result.1 with
  | .error .crashed => none
  | _ => some (result.2.records, result.2.active)

def next (host : Host) (w : World) : Event → Option World
  | .start fates =>
    if w.process.isSome then none
    else
      let result := load host ⟨w.disk, .empty, [], fates⟩
      some { w with
        disk := result.2.disk
        process := if returns result.1 then some (result.2.records, result.2.active) else none }
  | .call call fates =>
    w.process.map fun memory =>
      let result := perform host call ⟨w.disk, memory.1, memory.2, fates⟩
      { disk := result.2.disk
        process := memoryAfter result
        outcomes := recorded w.outcomes (call.goal host memory.1 memory.2) (returns result.1) }
  | .stop => some { w with process := none }

def World.exec (host : Host) (w : World) (events : List Event) : Option World :=
  Runs.exec (next host) w events

def restart (host : Host) (disk : Disk) : Except Halt Unit × State :=
  load host ⟨disk, .empty, [], []⟩

def Call.isEdit : Call → Bool
  | .editPausedEndpoint _ _ _ _ _ => true
  | _ => false

def Stable (network : Network) (isLocal : Bool) (url : Json) : Prop :=
  ∀ canonical ∈ canonicalLocalUrl network isLocal url,
    canonicalLocalUrl network isLocal (.str canonical) = some canonical

def Call.Stable (network : Network) (records : Records) : Call → Prop
  | .add _ url isLocal _ _ _ => Relay.Stable network isLocal url
  | .editPausedEndpoint name url _ _ _ =>
    ∀ old ∈ records.get? name, Relay.Stable network old.isLocal url
  | _ => True

def Proper (host : Host) (w : World) : Event → Prop
  | .call call _ =>
    (call.isEdit = true ∨ w.disk.isRecovering = false) ∧
      ∀ memory ∈ w.process, call.Stable host.network memory.1
  | _ => True

instance (network : Network) (isLocal : Bool) (url : Json) :
    Decidable (Stable network isLocal url) :=
  inferInstanceAs (Decidable (∀ canonical ∈ canonicalLocalUrl network isLocal url,
    canonicalLocalUrl network isLocal (.str canonical) = some canonical))

instance (network : Network) (records : Records) : (call : Call) →
    Decidable (call.Stable network records)
  | .add _ url isLocal _ _ _ => inferInstanceAs (Decidable (Stable network isLocal url))
  | .editPausedEndpoint name url _ _ _ =>
    inferInstanceAs (Decidable (∀ old ∈ records.get? name, Stable network old.isLocal url))
  | .replaceCredential _ _ | .retain _ | .remove _ | .nativeConfig _ _ => isTrue trivial

instance (host : Host) (w : World) : (event : Event) → Decidable (Proper host w event)
  | .call call _ =>
    inferInstanceAs (Decidable ((call.isEdit = true ∨ w.disk.isRecovering = false) ∧
      ∀ memory ∈ w.process, call.Stable host.network memory.1))
  | .start _ | .stop => isTrue trivial

/-- A disk without a pending journal, whose registry, if there is one, holds these records. -/
structure Begins (host : Host) (disk : Disk) (records : Records) : Prop where
  settled : disk.isRecovering = false
  sound : Sound host.network records
  holds : (disk.registry = none ∧ records = Dict.empty) ∨
    ∃ file, disk.registry = some file ∧ readRegistry host.network file = some records

def World.initial (disk : Disk) (records : Records) : World :=
  ⟨disk, none, fun name => ⟨records.get? name, []⟩⟩

def World.Survives (host : Host) (w : World) : Prop :=
  ∃ t, restart host w.disk = (.ok (), t) ∧ ∀ name, (w.outcomes name).Allows (t.records.get? name)

section

variable {host : Host}

def savedFile (host : Host) (records : Records) : JsonFile :=
  ⟨payload records, host.length (payload records)⟩

/-- The records that the next start loads. -/
inductive Reads (host : Host) (disk : Disk) : Records → Prop
  | journal (records : Records) (hjournal : disk.journal = some (savedFile host records))
      (hlength : host.length (payload records) ≤ maxRegistry) : Reads host disk records
  | registry (records : Records) (file : JsonFile) (hsettled : disk.isRecovering = false)
      (hregistry : disk.registry = some file)
      (hread : readRegistry host.network file = some records) : Reads host disk records
  | nothing (hsettled : disk.isRecovering = false) (hregistry : disk.registry = none) :
      Reads host disk Dict.empty

theorem savedFile_ne_null (records : Records) : savedFile host records ≠ nullFile := by
  intro h
  have hvalue := congrArg JsonFile.value h
  cases hvalue

variable {disk : Disk} {records : Records}

theorem isRecovering_of_journal {disk : Disk}
    (h : disk.journal = some (savedFile host records)) : disk.isRecovering = true := by
  have hne := @savedFile_ne_null host records
  unfold Disk.isRecovering
  rw [h]
  simpa using hne

theorem Begins.reads (h : Begins host disk records) : Reads host disk records := by
  rcases h.holds with ⟨hregistry, rfl⟩ | ⟨file, hregistry, hread⟩
  · exact .nothing h.settled hregistry
  · exact .registry records file h.settled hregistry hread

theorem Reads.put_pending {disk : Disk} (hlength : host.length (payload records) ≤ maxRegistry) :
    Reads host (disk.put .pending (savedFile host records)) records :=
  .journal records rfl hlength

theorem Reads.put_servers_journal {disk : Disk} (h : disk.journal = some (savedFile host records))
    (hlength : host.length (payload records) ≤ maxRegistry) (file : JsonFile) :
    Reads host (disk.put .servers file) records :=
  .journal records h hlength

theorem Reads.put_servers (hsettled : disk.isRecovering = false)
    (hsound : Sound host.network records) (hlength : host.length (payload records) ≤ maxRegistry) :
    Reads host (disk.put .servers (savedFile host records)) records :=
  .registry records _ hsettled rfl (hsound.read hlength)

theorem Reads.cleared {file : JsonFile} (hregistry : disk.registry = some file)
    (hread : readRegistry host.network file = some records) :
    Reads host (disk.put .pending nullFile) records :=
  .registry records file rfl hregistry hread

theorem atomicWrite_spec {name : FileName} {file : JsonFile} {P Q E : State → Prop}
    (hdone : ∀ s fates, P s → Q { s with disk := s.disk.put name file, fates := fates })
    (hsame : ∀ s fates, P s → E { s with fates := fates })
    (hput : ∀ s fates, P s → E { s with disk := s.disk.put name file, fates := fates }) :
    Triple P (atomicWrite name file) (fun _ => Q) (fun _ => E) := by
  intro s hs
  have hrun : atomicWrite name file s = s.fate.end_
      { s with
        disk := if s.fate.effective then s.disk.put name file else s.disk
        fates := s.fates.tail } := rfl
  rw [hrun]
  cases s.fate with
  | done =>
    constructor
    · intro _ t h
      cases h
      exact hdone s _ hs
    · intro _ t h
      cases h
  | failed effective =>
    constructor
    · intro _ t h
      cases h
    intro _ t h
    cases h
    cases effective with
    | true => exact hput s _ hs
    | false => exact hsame s _ hs
  | crashed effective =>
    constructor
    · intro _ t h
      cases h
    intro _ t h
    cases h
    cases effective with
    | true => exact hput s _ hs
    | false => exact hsame s _ hs

theorem save_spec {name : FileName} {P Q E : State → Prop} (hlong : ∀ s, P s → E s)
    (hdone : host.length (payload records) ≤ maxRegistry → ∀ s fates, P s →
      Q { s with disk := s.disk.put name (savedFile host records), fates := fates })
    (hsame : ∀ s fates, P s → E { s with fates := fates })
    (hput : host.length (payload records) ≤ maxRegistry → ∀ s fates, P s →
      E { s with disk := s.disk.put name (savedFile host records), fates := fates }) :
    Triple P (save host records name) (fun _ => Q) (fun _ => E) := by
  unfold save
  by_cases hlength : maxRegistry < host.length (payload records)
  · rw [if_pos hlength]
    exact Triple.raise hlong
  · rw [if_neg hlength]
    have hshort := Nat.le_of_not_lt hlength
    exact atomicWrite_spec (hdone hshort) hsame (hput hshort)

/-! ## Routines -/

def Holds (host : Host) (P : Records → Prop) (s : State) : Prop :=
  ∃ records, Sound host.network records ∧ P records ∧ Reads host s.disk records

def Rests (host : Host) (P : Records → Prop) (records : Records) (s : State) : Prop :=
  s.records = records ∧ Holds host P s

section

variable {P : Records → Prop} {old updated : Records}

theorem Holds.of_reads {s : State} (hsound : Sound host.network old) (hp : P old)
    (h : Reads host s.disk old) : Holds host P s := ⟨old, hsound, hp, h⟩

theorem Holds.put_servers {s : State} (h : Holds host P s) (hsound : Sound host.network old)
    (hp : P old) (hlength : host.length (payload old) ≤ maxRegistry) (fates : List Fate) :
    Holds host P { s with disk := s.disk.put .servers (savedFile host old), fates := fates } := by
  obtain ⟨records, hrecords, hpr, hreads⟩ := h
  cases hreads with
  | journal _ hjournal hlong =>
    exact ⟨records, hrecords, hpr, .put_servers_journal hjournal hlong _⟩
  | registry _ _ hsettled _ _ => exact ⟨old, hsound, hp, .put_servers hsettled hsound hlength⟩
  | nothing hsettled _ => exact ⟨old, hsound, hp, .put_servers hsettled hsound hlength⟩

theorem committed_spec (hupdated : Sound host.network updated) (hp : P updated) :
    Triple (fun s => Rests host P old s ∧ s.disk.isRecovering = false)
      (do save host updated .servers
          modify fun s => { s with records := updated })
      (fun _ s => s.records = updated ∧ Reads host s.disk updated)
      (fun _ => Rests host P old) := by
  apply Triple.bind (Q := fun _ s => Reads host s.disk updated)
  · apply save_spec
    · intro s hs
      exact hs.1
    · intro hlength s fates hs
      exact .put_servers hs.2 hupdated hlength
    · intro s fates hs
      exact hs.1
    · intro hlength s fates hs
      exact ⟨hs.1.1, .of_reads hupdated hp (.put_servers hs.2 hupdated hlength)⟩
  · intro _
    apply Triple.modify
    intro s hs
    exact ⟨rfl, hs⟩

/-- While the writes of an edit go on, the old records or the new ones are loaded. -/
theorem journaled_spec (hold : Sound host.network old) (hupdated : Sound host.network updated)
    (hpold : P old) (hp : P updated) :
    Triple (Rests host P old) (journaled host old updated)
      (fun _ s => s.records = old ∧ Reads host s.disk updated) (fun _ => Rests host P old) := by
  apply Triple.bind (Q := fun _ s => s.records = old ∧
    s.disk.journal = some (savedFile host old) ∧ host.length (payload old) ≤ maxRegistry)
  · apply save_spec
    · exact fun s hs => hs
    · intro hlength s fates hs
      exact ⟨hs.1, rfl, hlength⟩
    · exact fun s fates hs => hs
    · intro hlength s fates hs
      exact ⟨hs.1, .of_reads hold hpold (.put_pending hlength)⟩
  intro _
  apply Triple.bind (Q := fun _ s => (s.records = old ∧
    s.disk.journal = some (savedFile host old) ∧ host.length (payload old) ≤ maxRegistry) ∧
    s.disk.registry = some (savedFile host updated) ∧
    host.length (payload updated) ≤ maxRegistry)
  · apply save_spec
    · intro s ⟨hrecords, hjournal, hlength⟩
      exact ⟨hrecords, .of_reads hold hpold (.journal old hjournal hlength)⟩
    · intro hlong s fates hs
      exact ⟨hs, rfl, hlong⟩
    · intro s fates ⟨hrecords, hjournal, hlength⟩
      exact ⟨hrecords, .of_reads hold hpold (.journal old hjournal hlength)⟩
    · intro _ s fates ⟨hrecords, hjournal, hlength⟩
      exact ⟨hrecords, .of_reads hold hpold (.put_servers_journal hjournal hlength _)⟩
  intro _
  apply atomicWrite_spec
  · intro s fates ⟨⟨hrecords, _⟩, hregistry, hlong⟩
    exact ⟨hrecords, .cleared hregistry (hupdated.read hlong)⟩
  · intro s fates ⟨⟨hrecords, hjournal, hlength⟩, _⟩
    exact ⟨hrecords, .of_reads hold hpold (.journal old hjournal hlength)⟩
  · intro s fates ⟨⟨hrecords, _⟩, hregistry, hlong⟩
    exact ⟨hrecords, .of_reads hupdated hp (.cleared hregistry (hupdated.read hlong))⟩

theorem excepting_spec {body handler : Routine Unit} {R : State → Prop} {Q : Unit → State → Prop}
    {E F : Halt → State → Prop} (hbody : Triple R body Q F)
    (hcrash : ∀ s, F .crashed s → E .crashed s)
    (hhandler : ∀ problem, Triple (F (.raised problem)) handler Q E) :
    Triple R (excepting body handler) Q E := by
  apply Triple.attempt hbody
  intro halt
  cases halt with
  | raised problem => exact hhandler problem
  | crashed => exact Triple.raise hcrash

theorem rollBack_spec (hold : Sound host.network old) (hpold : P old) :
    Triple (Rests host P old) (rollBack host old) (fun _ _ => False)
      (fun _ => Rests host P old) := by
  apply Triple.bind (Q := fun _ => Rests host P old)
  · apply excepting_spec (F := fun _ => Rests host P old)
    · apply Triple.bind (Q := fun _ s => Rests host P old s ∧
        s.disk.registry = some (savedFile host old) ∧ host.length (payload old) ≤ maxRegistry)
      · apply save_spec
        · exact fun s hs => hs
        · intro hlength s fates hs
          exact ⟨⟨hs.1, hs.2.put_servers hold hpold hlength fates⟩, rfl, hlength⟩
        · exact fun s fates hs => hs
        · intro hlength s fates hs
          exact ⟨hs.1, hs.2.put_servers hold hpold hlength fates⟩
      · intro _
        apply atomicWrite_spec
        · intro s fates ⟨hs, hregistry, hlength⟩
          exact ⟨hs.1, .of_reads hold hpold (.cleared hregistry (hold.read hlength))⟩
        · exact fun s fates hs => hs.1
        · intro s fates ⟨hs, hregistry, hlength⟩
          exact ⟨hs.1, .of_reads hold hpold (.cleared hregistry (hold.read hlength))⟩
    · exact fun s hs => hs
    · intro problem
      exact Triple.raise fun s hs => hs
  · intro _
    exact Triple.raise fun s hs => hs

/-- An edit ends with the new records, or raises with the old ones in memory. -/
theorem edited_spec (hold : Sound host.network old) (hupdated : Sound host.network updated)
    (hpold : P old) (hp : P updated) :
    Triple (Rests host P old)
      (do excepting (journaled host old updated) (rollBack host old)
          modify fun s => { s with records := updated })
      (fun _ s => s.records = updated ∧ Reads host s.disk updated)
      (fun _ => Rests host P old) := by
  apply Triple.bind (Q := fun _ s => Reads host s.disk updated)
  · have hbody := journaled_spec hold hupdated hpold hp
    apply excepting_spec (F := fun _ => Rests host P old)
    · exact hbody.weaken (fun s hs => hs) (fun _ s hs => hs.2) (fun _ s hs => hs)
    · exact fun s hs => hs
    · intro problem
      exact (rollBack_spec hold hpold).weaken (fun s hs => hs) (fun _ s hs => hs.elim)
        (fun _ s hs => hs)
  · intro _
    apply Triple.modify
    intro s hs
    exact ⟨rfl, hs⟩

end

/-- A start leaves what the next start loads, and loads it if it returns. -/
theorem load_spec (hsound : Sound host.network records) :
    Triple (fun s => Reads host s.disk records) (load host)
      (fun _ s => s.records = records ∧ Reads host s.disk records)
      (fun _ s => Reads host s.disk records) := by
  intro s hs
  cases hs with
  | nothing hsettled hregistry =>
    have hsource : s.disk.source = none := by
      unfold Disk.source
      rw [hsettled]
      exact hregistry
    have hrun : load host s = (.ok (), { s with records := .empty }) := by
      simp only [load, bind_modify_run, bind_read_run, hsource, pure_run]
    rw [hrun]
    constructor
    · intro _ t h
      cases h
      exact ⟨rfl, .nothing hsettled hregistry⟩
    · intro _ t h
      cases h
  | registry _ file hsettled hregistry hread =>
    have hsource : s.disk.source = some file := by
      unfold Disk.source
      rw [hsettled]
      exact hregistry
    have hrun : load host s = (.ok (), { s with records := records }) := by
      simp [load, hsource, hread, hsettled]
    rw [hrun]
    constructor
    · intro _ t h
      cases h
      exact ⟨rfl, .registry records file hsettled hregistry hread⟩
    · intro _ t h
      cases h
  | journal _ hjournal hlength =>
    have hrecovering := isRecovering_of_journal hjournal
    have hsource : s.disk.source = some (savedFile host records) := by
      unfold Disk.source
      rw [hrecovering]
      exact hjournal
    have hread : readRegistry host.network (savedFile host records) = some records :=
      hsound.read hlength
    have hrun : load host s = (do save host records .servers; clearJournal : Routine Unit)
        { s with records := records } := by
      simp [load, hsource, hread, hrecovering]
    rw [hrun]
    have hwrites : Triple
        (fun s : State => s.records = records ∧ s.disk.journal = some (savedFile host records))
        (do save host records .servers; clearJournal)
        (fun _ s => s.records = records ∧ Reads host s.disk records)
        (fun _ s => Reads host s.disk records) := by
      apply Triple.bind (Q := fun _ s => (s.records = records ∧
        s.disk.journal = some (savedFile host records)) ∧
        s.disk.registry = some (savedFile host records))
      · apply save_spec
        · exact fun s hs => .journal records hs.2 hlength
        · exact fun _ s fates hs => ⟨hs, rfl⟩
        · exact fun s fates hs => .journal records hs.2 hlength
        · exact fun _ s fates hs => .put_servers_journal hs.2 hlength _
      · intro _
        apply atomicWrite_spec
        · exact fun s fates hs => ⟨hs.1.1, .cleared hs.2 hread⟩
        · exact fun s fates hs => .journal records hs.1.2 hlength
        · exact fun s fates hs => .cleared hs.2 hread
    exact hwrites _ ⟨rfl, hjournal⟩

theorem atomicWrite_quiet (name : FileName) (file : JsonFile) {s : State} (h : s.fates = []) :
    atomicWrite name file s = (.ok (), { s with disk := s.disk.put name file, fates := [] }) := by
  simp [atomicWrite, State.fate, h, Fate.effective, Fate.end_]

/-- Where no write fails, a start that finds readable records returns. -/
theorem restart_returns (hsound : Sound host.network records)
    (h : Reads host disk records) : returns (restart host disk).1 = true := by
  cases h with
  | nothing hsettled hregistry =>
    have hsource : disk.source = none := by
      unfold Disk.source
      rw [hsettled]
      exact hregistry
    simp [restart, load, hsource, returns]
  | registry _ file hsettled hregistry hread =>
    have hsource : disk.source = some file := by
      unfold Disk.source
      rw [hsettled]
      exact hregistry
    simp [restart, load, hsource, hread, hsettled, returns]
  | journal _ hjournal hlength =>
    have hrecovering := isRecovering_of_journal hjournal
    have hsource : disk.source = some (savedFile host records) := by
      unfold Disk.source
      rw [hrecovering]
      exact hjournal
    have hread : readRegistry host.network (savedFile host records) = some records :=
      hsound.read hlength
    have hshort : ¬ maxRegistry < host.length (payload records) := Nat.not_lt.mpr hlength
    simp [restart, load, hsource, hread, hrecovering, save, if_neg hshort, bind_run,
      atomicWrite_quiet, clearJournal, returns]

theorem restart_ok (hsound : Sound host.network records) (h : Reads host disk records) :
    ∃ t, restart host disk = (.ok (), t) ∧ t.records = records := by
  have hreturns := restart_returns hsound h
  have hload := (load_spec hsound ⟨disk, .empty, [], []⟩ h).1
  cases hrun : restart host disk with
  | mk result t =>
    rw [hrun] at hreturns
    cases result with
    | ok value => exact ⟨t, rfl, (hload value t hrun).1⟩
    | error halt => cases hreturns

end

end CodexBridge.Mcp.Relay
