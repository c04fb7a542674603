import CodexBridge.Mcp.RelayRuns

/-! # The registry of relayed servers survives failures

What a restart loads is, for each server, the record of the last call on it that returned, or of
one after it that failed or was interrupted. This needs a caller that leaves the relay alone after
an edit whose way back failed.
-/

namespace CodexBridge.Mcp.Relay

open Effect Url

section

variable {host : Host}

/-! ## Calls -/

section

variable {P : Records → Prop} {old updated : Records} {active : List String}

theorem added_sound (hnetwork : host.network.Lawful) (hold : Sound host.network old)
    {name : String} {url : Json} {isLocal : Bool} {credential : Credential} {answers : Answers}
    {token : Token} (hstable : Stable host.network isLocal url)
    (h : added host old name url isLocal credential answers token = .ok updated) :
    Sound host.network updated ∧ ∀ other, other ≠ name → updated.get? other = old.get? other := by
  unfold added at h
  split at h
  · cases h
  rename_i hchecks
  split at h
  · rename_i canonical addresses hcanonical haddresses
    split at h
    · cases h
    rename_i hroom
    cases h
    obtain ⟨answer, _, hchecked⟩ := Option.bind_eq_some_iff.mp haddresses
    have hname : isServerName name = true := by
      cases hvalue : isServerName name with
      | true => rfl
      | false => simp [hvalue] at hchecks
    have hclosed : isLocal = false → credential.value.mode ≠ .open := by
      intro hlocal hmode
      simp [hlocal, hmode] at hchecks
    have hsize := Dict.size_set_le old name
      ⟨canonical, addresses, token.value, isLocal, credential.value⟩
    have hless : old.size < maxServers := by
      by_contra hge
      simp [Nat.le_of_not_lt hge] at hroom
    constructor
    · apply hold.set hname _ (by omega)
      exact
        { token := token.valid
          credential := credential.isStored
          closed := hclosed
          url := hstable canonical hcanonical
          addresses := checkedAddresses_again hnetwork hchecked }
    · intro other hne
      exact Dict.get?_set_of_ne old _ hne
  · cases h

theorem replaced_sound (hold : Sound host.network old) {name : String}
    {credential : Option Secret} (h : replaced old name credential = .ok updated) :
    Sound host.network updated ∧ ∀ other, other ≠ name → updated.get? other = old.get? other := by
  unfold replaced at h
  split at h
  · cases h
  rename_i record hrecord
  split at h
  · cases h
  rename_i hmode
  cases h
  obtain ⟨hname, hsound⟩ := hold.of_get? hrecord
  constructor
  · apply hold.set hname
    · exact
        { token := hsound.token
          credential := by
            cases credential with
            | none => exact isStored_nil record.credential.mode
            | some secret => exact secret.credential.isStored
          closed := by
            intro _
            cases credential with
            | none => exact hmode
            | some secret => exact secret.closed
          url := hsound.url
          addresses := hsound.addresses }
    · rw [Dict.size_set_of_some old hrecord]
      exact hold.size
  · intro other hne
    exact Dict.get?_set_of_ne old _ hne

theorem editedCredential_sound {record : McpCredential} {action : String}
    {credential : Option Credential} {auth : McpCredential} (hrecord : IsStored record)
    (h : editedCredential record action credential = some auth) :
    IsStored auth ∧ (record.mode ≠ .open → auth.mode ≠ .open) := by
  unfold editedCredential at h
  split at h
  · obtain ⟨hauth, hmode⟩ := Option.filter_eq_some_iff.mp h
    obtain ⟨c, _, rfl⟩ := Option.map_eq_some_iff.mp hauth
    exact ⟨c.isStored, fun _ => by simpa using hmode⟩
  split at h
  · cases h
    exact ⟨isStored_nil record.mode, id⟩
  · rcases Runs.taken h with ⟨_, rfl⟩
    exact ⟨hrecord, id⟩

theorem edited_sound (hnetwork : host.network.Lawful) (hold : Sound host.network old)
    {name : String} {url : Json} {action : String} {credential : Option Credential}
    {answers : Answers}
    (hstable : ∀ record, old.get? name = some record → Stable host.network record.isLocal url)
    (h : edited host old active name url action credential answers = .ok updated) :
    Sound host.network updated ∧ ∀ other, other ≠ name → updated.get? other = old.get? other := by
  unfold edited at h
  split at h
  · cases h
  rename_i record hrecord
  split at h
  · cases h
  split at h
  · rename_i canonical addresses auth hcanonical haddresses hauth
    cases h
    obtain ⟨hname, hsound⟩ := hold.of_get? hrecord
    obtain ⟨hstored, hmode⟩ := editedCredential_sound hsound.credential hauth
    obtain ⟨answer, _, hchecked⟩ := Option.bind_eq_some_iff.mp haddresses
    constructor
    · apply hold.set hname
      · exact
          { token := hsound.token
            credential := hstored
            closed := fun hlocal => hmode (hsound.closed hlocal)
            url := hstable record hrecord canonical hcanonical
            addresses := checkedAddresses_again hnetwork hchecked }
      · rw [Dict.size_set_of_some old hrecord]
        exact hold.size
    · intro other hne
      exact Dict.get?_set_of_ne old _ hne
  · cases h

theorem retained_frame {names : List String} {name : String} (h : name ∉ dropped old names) :
    (old.filter fun name _ => decide (name ∈ names)).get? name = old.get? name := by
  rw [Dict.get?_filter]
  cases hrecord : old.get? name with
  | none => rfl
  | some record =>
    have hkey : name ∈ old.keys := (Dict.mem_keys_iff old name).mpr ⟨record, hrecord⟩
    have hname : name ∈ names := by
      by_contra hnot
      exact h (List.mem_filter.mpr ⟨hkey, decide_eq_true hnot⟩)
    simp [hname]

/-- The records that a call goes for can be loaded, and are as before for every other server. -/
theorem goal_sound (hnetwork : host.network.Lawful) (hold : Sound host.network old) {call : Call}
    (hstable : call.Stable host.network old) {names : List String}
    (h : call.goal host old active = some (names, updated)) :
    Sound host.network updated ∧ ∀ name, name ∉ names → updated.get? name = old.get? name := by
  have hretain : ∀ kept, Call.goal.retainGoal old kept = some (names, updated) →
      Sound host.network updated ∧ ∀ name, name ∉ names → updated.get? name = old.get? name := by
    intro kept hkept
    obtain ⟨_, hkept⟩ := Option.ite_none_left_eq_some.mp hkept
    cases hkept
    exact ⟨hold.filter _, fun name hname => retained_frame hname⟩
  cases call with
  | add name url isLocal credential answers token =>
    obtain ⟨records, hrecords, h⟩ := Option.map_eq_some_iff.mp h
    cases h
    cases hadded : added host old name url isLocal credential answers token with
    | error problem =>
      rw [hadded] at hrecords
      cases hrecords
    | ok records' =>
      rw [hadded] at hrecords
      cases hrecords
      obtain ⟨hsound, hframe⟩ := added_sound hnetwork hold hstable hadded
      exact ⟨hsound, fun other hne => hframe other (by simpa using hne)⟩
  | replaceCredential name credential =>
    obtain ⟨records, hrecords, h⟩ := Option.map_eq_some_iff.mp h
    cases h
    cases hreplaced : replaced old name credential with
    | error problem =>
      rw [hreplaced] at hrecords
      cases hrecords
    | ok records' =>
      rw [hreplaced] at hrecords
      cases hrecords
      obtain ⟨hsound, hframe⟩ := replaced_sound hold hreplaced
      exact ⟨hsound, fun other hne => hframe other (by simpa using hne)⟩
  | editPausedEndpoint name url action credential answers =>
    obtain ⟨records, hrecords, h⟩ := Option.map_eq_some_iff.mp h
    cases h
    cases hedited : edited host old active name url action credential answers with
    | error problem =>
      rw [hedited] at hrecords
      cases hrecords
    | ok records' =>
      rw [hedited] at hrecords
      cases hrecords
      obtain ⟨hsound, hframe⟩ := edited_sound hnetwork hold hstable hedited
      exact ⟨hsound, fun other hne => hframe other (by simpa using hne)⟩
  | retain kept => exact hretain kept h
  | remove name => exact hretain _ h
  | nativeConfig name active => cases h

def Reaches (host : Host) (P : Records → Prop) (old updated : Records)
    (result : Except Halt Unit × State) : Prop :=
  if returns result.1 then result.2.records = updated ∧ Reads host result.2.disk updated
  else Rests host P old result.2

theorem reaches_of_triple {R : State → Prop} {c : Routine Unit}
    (h : Triple R c (fun _ s => s.records = updated ∧ Reads host s.disk updated)
      (fun _ => Rests host P old)) {s : State} (hs : R s) : Reaches host P old updated (c s) := by
  obtain ⟨hok, herror⟩ := h s hs
  unfold Reaches
  cases hrun : c s with
  | mk result t =>
    cases result with
    | ok value => exact hok value t hrun
    | error halt => exact herror halt t hrun

/-- A refused call, or one that finds nothing to remove, changes neither the disk nor the
records. -/
def Untouched (s : State) (result : Except Halt Unit × State) : Prop :=
  result.2.disk = s.disk ∧ result.2.records = s.records

theorem retain_untouched {names : List String} {s : State}
    (h : Call.goal.retainGoal s.records names = none) : Untouched s (retain host names s) := by
  have hempty : (dropped s.records names).isEmpty = true := by
    by_contra hnot
    simp [Call.goal.retainGoal, hnot] at h
  have hrun : retain host names s = (.ok (), s) := by
    unfold retain
    rw [bind_read_run, if_pos hempty]
    rfl
  rw [hrun]
  exact ⟨rfl, rfl⟩

theorem retain_reaches {kept names : List String} {s : State}
    (hupdated : Sound host.network updated) (hp : P updated)
    (h : Call.goal.retainGoal s.records kept = some (names, updated))
    (hs : Rests host P s.records s) (hsettled : s.disk.isRecovering = false) :
    Reaches host P s.records updated (retain host kept s) := by
  obtain ⟨hsome, h⟩ := Option.ite_none_left_eq_some.mp h
  cases h
  have hrun : retain host kept s =
      (do save host (s.records.filter fun name _ => decide (name ∈ kept)) .servers
          modify fun t => { t with
            records := s.records.filter fun name _ => decide (name ∈ kept) } : Routine Unit)
        { s with active := s.active.filter (· ∉ dropped s.records kept) } := by
    unfold retain
    rw [bind_read_run, if_neg hsome]
    rfl
  rw [hrun]
  exact reaches_of_triple (committed_spec hupdated hp) ⟨hs, hsettled⟩

theorem perform_untouched {call : Call} {s : State}
    (h : call.goal host s.records s.active = none) : Untouched s (perform host call s) := by
  cases call with
  | add name url isLocal credential answers token =>
    cases hadded : added host s.records name url isLocal credential answers token with
    | ok records => simp [Call.goal, hadded, Except.toOption] at h
    | error problem => simp [Untouched, perform, add, hadded, Except.mapError, bind_run]
  | replaceCredential name credential =>
    cases hreplaced : replaced s.records name credential with
    | ok records => simp [Call.goal, hreplaced, Except.toOption] at h
    | error problem =>
      simp [Untouched, perform, replaceCredential, hreplaced, Except.mapError, bind_run]
  | editPausedEndpoint name url action credential answers =>
    cases hedited : edited host s.records s.active name url action credential answers with
    | ok records => simp [Call.goal, hedited, Except.toOption] at h
    | error problem =>
      simp [Untouched, perform, editPausedEndpoint, hedited, Except.mapError, bind_run]
  | retain kept => exact retain_untouched h
  | remove name =>
    have hrun : remove host name s = retain host (s.records.keys.filter (· ≠ name)) s := rfl
    show Untouched s (remove host name s)
    rw [hrun]
    exact retain_untouched h
  | nativeConfig name active =>
    show Untouched s (nativeConfig host name active s)
    unfold nativeConfig
    rw [bind_read_run]
    cases s.records.get? name with
    | none => exact ⟨rfl, rfl⟩
    | some record =>
      by_cases hlocal : (record.isLocal && !host.localEnabled) = true
      · simp only [hlocal, if_true]
        exact ⟨rfl, rfl⟩
      · simp only [hlocal]
        exact ⟨rfl, rfl⟩

theorem perform_reaches (hold : Sound host.network old) (hupdated : Sound host.network updated)
    (hpold : P old) (hp : P updated) {call : Call} {s : State} {names : List String}
    (h : call.goal host s.records s.active = some (names, updated)) (hs : Rests host P old s)
    (hproper : call.isEdit = true ∨ s.disk.isRecovering = false) :
    Reaches host P old updated (perform host call s) := by
  obtain ⟨rfl, hholds⟩ := hs
  have hrests : Rests host P s.records s := ⟨rfl, hholds⟩
  cases call with
  | add name url isLocal credential answers token =>
    have hsettled : s.disk.isRecovering = false := hproper.resolve_left (by simp [Call.isEdit])
    cases hadded : added host s.records name url isLocal credential answers token with
    | error problem => simp [Call.goal, hadded, Except.toOption] at h
    | ok records =>
      have hrecords : records = updated := by
        simp [Call.goal, hadded, Except.toOption] at h
        exact h.2
      subst hrecords
      have hrun : perform host (.add name url isLocal credential answers token) s =
          (do save host records .servers
              modify fun t => { t with records := records } : Routine Unit) s := by
        simp [perform, add, hadded, Except.mapError, bind_run]
      rw [hrun]
      exact reaches_of_triple (committed_spec hupdated hp) ⟨hrests, hsettled⟩
  | replaceCredential name credential =>
    have hsettled : s.disk.isRecovering = false := hproper.resolve_left (by simp [Call.isEdit])
    cases hreplaced : replaced s.records name credential with
    | error problem => simp [Call.goal, hreplaced, Except.toOption] at h
    | ok records =>
      have hrecords : records = updated := by
        simp [Call.goal, hreplaced, Except.toOption] at h
        exact h.2
      subst hrecords
      have hrun : perform host (.replaceCredential name credential) s =
          (do save host records .servers
              modify fun t => { t with records := records } : Routine Unit)
            { s with active := s.active.filter (· ≠ name) } := by
        simp [perform, replaceCredential, hreplaced, Except.mapError, bind_run]
      rw [hrun]
      exact reaches_of_triple (committed_spec hupdated hp) ⟨hrests, hsettled⟩
  | editPausedEndpoint name url action credential answers =>
    cases hedited : edited host s.records s.active name url action credential answers with
    | error problem => simp [Call.goal, hedited, Except.toOption] at h
    | ok records =>
      have hrecords : records = updated := by
        simp [Call.goal, hedited, Except.toOption] at h
        exact h.2
      subst hrecords
      have hrun : perform host (.editPausedEndpoint name url action credential answers) s =
          (do excepting (journaled host s.records records) (rollBack host s.records)
              modify fun t => { t with records := records } : Routine Unit) s := by
        simp [perform, editPausedEndpoint, hedited, Except.mapError, bind_run]
      rw [hrun]
      exact reaches_of_triple (edited_spec hold hupdated hpold hp) hrests
  | retain kept =>
    exact retain_reaches hupdated hp h hrests (hproper.resolve_left (by simp [Call.isEdit]))
  | remove name =>
    have hrun : remove host name s = retain host (s.records.keys.filter (· ≠ name)) s := rfl
    show Reaches host P s.records updated (remove host name s)
    rw [hrun]
    exact retain_reaches hupdated hp h hrests (hproper.resolve_left (by simp [Call.isEdit]))
  | nativeConfig name active => cases h

end

def Allowed (outcomes : String → Outcome) (records : Records) : Prop :=
  ∀ name, (outcomes name).Allows (records.get? name)

theorem allowed_failed {outcomes : String → Outcome} {records : Records}
    {goal : Option (List String × Records)} (h : Allowed outcomes records) :
    Allowed (recorded outcomes goal false) records := by
  intro name
  unfold recorded
  cases goal with
  | none => exact h name
  | some goal =>
    by_cases hname : name ∈ goal.1
    · simp only [hname, if_true]
      rcases h name with hsettled | htried
      · exact .inl hsettled
      · exact .inr (List.mem_cons_of_mem _ htried)
    · simp only [hname, if_false]
      exact h name

theorem allowed_goal {outcomes : String → Outcome} {old updated : Records} {names : List String}
    (h : Allowed outcomes old)
    (hframe : ∀ name, name ∉ names → updated.get? name = old.get? name) (returned : Bool) :
    Allowed (recorded outcomes (some (names, updated)) returned) updated := by
  intro name
  unfold recorded
  by_cases hname : name ∈ names
  · simp only [hname, if_true]
    cases returned with
    | true => exact .inl rfl
    | false => exact .inr List.mem_cons_self
  · simp only [hname, if_false]
    rw [hframe name hname]
    exact h name

structure Inv (host : Host) (w : World) : Prop where
  disk : ∃ records, Sound host.network records ∧ Allowed w.outcomes records ∧
    Reads host w.disk records
  memory : ∀ memory, w.process = some memory →
    Sound host.network memory.1 ∧ Allowed w.outcomes memory.1

theorem inv_initial {disk : Disk} {records : Records} (h : Begins host disk records) :
    Inv host (World.initial disk records) where
  disk := ⟨records, h.sound, fun _ => .inl rfl, h.reads⟩
  memory := fun _ hmemory => by cases hmemory

theorem Inv.start {w w' : World} {fates : List Fate} (h : Inv host w)
    (hnext : next host w (.start fates) = some w') : Inv host w' := by
  obtain ⟨_, hnext⟩ := Option.ite_none_left_eq_some.mp hnext
  cases hnext
  obtain ⟨records, hsound, hallowed, hreads⟩ := h.disk
  obtain ⟨hok, herror⟩ := load_spec hsound ⟨w.disk, .empty, [], fates⟩ hreads
  cases hrun : load host ⟨w.disk, .empty, [], fates⟩ with
  | mk result t =>
    cases result with
    | ok value =>
      obtain ⟨hrecords, hafter⟩ := hok value t hrun
      constructor
      · exact ⟨records, hsound, hallowed, hafter⟩
      intro memory hmemory
      cases hmemory
      show Sound host.network t.records ∧ Allowed w.outcomes t.records
      rw [hrecords]
      exact ⟨hsound, hallowed⟩
    | error halt =>
      constructor
      · exact ⟨records, hsound, hallowed, herror halt t hrun⟩
      · intro memory hmemory
        cases hmemory

theorem memoryAfter_records {result : Except Halt Unit × State}
    {memory : Records × List String} (h : memoryAfter result = some memory) :
    memory.1 = result.2.records := by
  unfold memoryAfter at h
  split at h
  · cases h
  · cases h
    rfl

theorem Inv.call (hnetwork : host.network.Lawful) {w w' : World} {call : Call}
    {fates : List Fate} (h : Inv host w) (hproper : Proper host w (.call call fates))
    (hnext : next host w (.call call fates) = some w') : Inv host w' := by
  obtain ⟨memory, hprocess, hnext⟩ := Option.map_eq_some_iff.mp hnext
  obtain ⟨hsound, hallowed⟩ := h.memory memory hprocess
  obtain ⟨records, hrecords, hallowedDisk, hreads⟩ := h.disk
  obtain ⟨hjournal, hstable⟩ := hproper
  subst hnext
  cases hgoal : call.goal host memory.1 memory.2 with
  | none =>
    obtain ⟨hdisk, hmemory⟩ := perform_untouched
      (s := ⟨w.disk, memory.1, memory.2, fates⟩) hgoal
    constructor
    · refine ⟨records, hrecords, hallowedDisk, ?_⟩
      simp only [hdisk]
      exact hreads
    · intro after hafter
      rw [memoryAfter_records hafter, hmemory]
      exact ⟨hsound, hallowed⟩
  | some goal =>
    obtain ⟨names, updated⟩ := goal
    obtain ⟨hupdated, hframe⟩ := goal_sound hnetwork hsound (hstable memory hprocess) hgoal
    have hfailed : ∀ records, Allowed w.outcomes records →
        Allowed (recorded w.outcomes (some (names, updated)) false) records :=
      fun _ => allowed_failed
    have hreach := perform_reaches
      (P := Allowed (recorded w.outcomes (some (names, updated)) false))
      (s := ⟨w.disk, memory.1, memory.2, fates⟩) hsound hupdated (hfailed _ hallowed)
      (allowed_goal hallowed hframe false) hgoal
      ⟨rfl, records, hrecords, hfailed _ hallowedDisk, hreads⟩ hjournal
    generalize perform host call ⟨w.disk, memory.1, memory.2, fates⟩ = result at hreach ⊢
    show Inv host ⟨result.2.disk, memoryAfter result,
      recorded w.outcomes (some (names, updated)) (returns result.1)⟩
    unfold Reaches at hreach
    cases hreturned : returns result.1 with
    | true =>
      rw [hreturned, if_pos rfl] at hreach
      obtain ⟨hmemory, hafter⟩ := hreach
      have hsettled := allowed_goal hallowed hframe true
      constructor
      · exact ⟨updated, hupdated, hsettled, hafter⟩
      intro after hafter
      rw [memoryAfter_records hafter, hmemory]
      exact ⟨hupdated, hsettled⟩
    | false =>
      rw [hreturned, if_neg Bool.false_ne_true] at hreach
      obtain ⟨hmemory, hdisk⟩ := hreach
      constructor
      · exact hdisk
      intro after hafter
      rw [memoryAfter_records hafter, hmemory]
      exact ⟨hsound, hfailed _ hallowed⟩

theorem Inv.next (hnetwork : host.network.Lawful) {w w' : World} {event : Event}
    (h : Inv host w) (hproper : Proper host w event)
    (hnext : Relay.next host w event = some w') : Inv host w' := by
  cases event with
  | start fates => exact h.start hnext
  | call call fates => exact h.call hnetwork hproper hnext
  | stop =>
    cases hnext
    constructor
    · exact h.disk
    · intro memory hmemory
      cases hmemory

/-- After any run of starts, calls and failures, a restart in which the writes succeed returns and
loads for each server the record of the last call on it that returned, or of one that failed or was
interrupted since. -/
theorem World.run_survives (hnetwork : host.network.Lawful) {disk : Disk} {records : Records}
    (hbegins : Begins host disk records) {events : List Event}
    (hproper : Runs.Meets (next host) (Proper host) (World.initial disk records) events)
    {w : World} (hrun : (World.initial disk records).exec host events = some w) :
    w.Survives host := by
  have hinv := Runs.invariant_of_meets (I := Inv host)
    (fun _ _ _ hs hproper hnext => Inv.next hnetwork hs hproper hnext) (inv_initial hbegins)
    hproper hrun
  obtain ⟨loaded, hsound, hallowed, hreads⟩ := hinv.disk
  obtain ⟨t, hrestart, hloaded⟩ := restart_ok hsound hreads
  refine ⟨t, hrestart, ?_⟩
  rw [hloaded]
  exact hallowed

end

/-- The length of `json.dumps(value)`. -/
def dumpsLength : Json → Nat
  | .null => 4
  | .bool value => if value then 4 else 5
  | .int value => (toString value).length
  | .float literal => literal.length
  | .str value => 2 + (value.toList.flatMap asciiEscape).length
  | .arr items => 2 + itemsLength items
  | .obj fields => 2 + fieldsLength fields
where
  itemsLength : List Json → Nat
    | [] => 0
    | [item] => dumpsLength item
    | item :: next :: rest => dumpsLength item + 2 + itemsLength (next :: rest)
  fieldsLength : List (String × Json) → Nat
    | [] => 0
    | [(key, value)] => 4 + (key.toList.flatMap asciiEscape).length + dumpsLength value
    | (key, value) :: next :: rest =>
      6 + (key.toList.flatMap asciiEscape).length + dumpsLength value +
        fieldsLength (next :: rest)

/-- A resolver that knows one address. -/
def sampleNetwork : Network where
  unicode := ⟨fun _ => false, id, List.map Char.toLower⟩
  parse := fun value => if value = "10.0.0.7".toList then some ⟨false, 0x0a000007⟩ else none
  text := fun _ => "10.0.0.7".toList
  isGlobal := fun _ => false

theorem sampleNetwork_lawful : sampleNetwork.Lawful where
  parse_text := by
    intro value address h
    obtain ⟨_, h⟩ := Option.ite_none_right_eq_some.mp h
    cases h
    rfl
  text_scope := by
    intro value address _ _
    show '%' ∉ "10.0.0.7".toList
    decide

def sampleHost : Host := ⟨sampleNetwork, dumpsLength, true⟩

def sampleToken : Token where
  value := "00112233445566778899aabbccddeeff00112233445566778899aabbccddeeff"
  valid := by decide +kernel

def addHome (url : String) : Call :=
  .add "home" (.str url) true ⟨⟨.open, []⟩, .null, rfl⟩ (some ["10.0.0.7".toList]) sampleToken

def moveHome : Call :=
  .editPausedEndpoint "home" (.str "http://new.local/mcp") "keep" none (some ["10.0.0.7".toList])

def emptyWorld : World := World.initial ⟨none, none⟩ Dict.empty

/-- An edit and the way back from it fail, and leave the journal. -/
def failedEdit : List Event :=
  [.start [], .call (addHome "http://old.local/mcp") [],
    .call moveHome [.done, .failed false, .failed false]]

theorem begins_empty (host : Host) : Begins host ⟨none, none⟩ Dict.empty where
  settled := rfl
  sound := sound_empty
  holds := .inl ⟨rfl, rfl⟩

/-- The edit that failed is not called off by a restart: the old record is loaded again. -/
theorem run_survives_failedEdit : ∃ w, emptyWorld.exec sampleHost failedEdit = some w ∧
    w.Survives sampleHost := by
  have hproper : Runs.Meets (next sampleHost) (Proper sampleHost) emptyWorld failedEdit := by
    decide +kernel
  have hruns : (emptyWorld.exec sampleHost failedEdit).isSome = true := by decide +kernel
  obtain ⟨w, hw⟩ := Option.isSome_iff_exists.mp hruns
  exact ⟨w, hw, World.run_survives sampleNetwork_lawful (begins_empty sampleHost) hproper hw⟩

/-- A restart loads a record for a server though the last call about it removed it. -/
def World.returnsRemoved (host : Host) (w : World) (name : String) : Bool :=
  decide ((w.outcomes name).settled = none) && (w.outcomes name).tried.isEmpty &&
    ((restart host w.disk).2.records.get? name).isSome

theorem not_survives_of_returnsRemoved {host : Host} {w : World} {name : String}
    (h : w.returnsRemoved host name = true) : ¬ w.Survives host := by
  rintro ⟨t, hrestart, hallowed⟩
  unfold World.returnsRemoved at h
  rw [hrestart] at h
  rcases hallowed name with hsettled | htried
  · simp only [Bool.and_eq_true, decide_eq_true_eq] at h
    rw [hsettled, h.1.1] at h
    exact absurd h.2 (by simp)
  · simp only [Bool.and_eq_true, decide_eq_true_eq, List.isEmpty_iff] at h
    rw [h.1.2] at htried
    exact absurd htried List.not_mem_nil

/-- A removal after an edit that ended in `McpRelayRecoveryError` returns, and the journal of the
edit brings the server back. -/
theorem staleJournal_restores : ∃ w,
    emptyWorld.exec sampleHost (failedEdit ++ [.call (.remove "home") []]) = some w ∧
      ¬ w.Survives sampleHost := by
  have hruns : ((emptyWorld.exec sampleHost (failedEdit ++ [.call (.remove "home") []])).map
      fun w => w.returnsRemoved sampleHost "home") = some true := by decide +kernel
  obtain ⟨w, hw, hreturns⟩ := Option.map_eq_some_iff.mp hruns
  exact ⟨w, hw, not_survives_of_returnsRemoved hreturns⟩

/-- A canonical URL that ends in a space is saved, and no restart loads it. -/
theorem spacedUrl_blocks : ∃ w,
    emptyWorld.exec sampleHost [.start [], .call (addHome "http://old.local/mcp\u00a0?") []] =
      some w ∧ returns (restart sampleHost w.disk).1 = false := by
  have hruns : ((emptyWorld.exec sampleHost
      [.start [], .call (addHome "http://old.local/mcp\u00a0?") []]).map
      fun w => returns (restart sampleHost w.disk).1) = some false := by decide +kernel
  obtain ⟨w, hw, hreturns⟩ := Option.map_eq_some_iff.mp hruns
  exact ⟨w, hw, hreturns⟩

/-- An addition fails though its write took effect; a removal returns and finds nothing. -/
theorem failedAddition_remains : ∃ w,
    emptyWorld.exec sampleHost [.start [], .call (addHome "http://old.local/mcp") [.failed true],
      .call (.remove "home") []] = some w ∧
      ((restart sampleHost w.disk).2.records.get? "home").isSome = true := by
  have hruns : ((emptyWorld.exec sampleHost
      [.start [], .call (addHome "http://old.local/mcp") [.failed true],
        .call (.remove "home") []]).map
      fun w => ((restart sampleHost w.disk).2.records.get? "home").isSome) = some true := by
    decide +kernel
  obtain ⟨w, hw, hreturns⟩ := Option.map_eq_some_iff.mp hruns
  exact ⟨w, hw, hreturns⟩

/-- Without the conditions a removed server can come back, and the registry can be left in a state
that no start loads. -/
theorem run_not_survives :
    (∃ w, emptyWorld.exec sampleHost (failedEdit ++ [.call (.remove "home") []]) = some w ∧
      ¬ w.Survives sampleHost) ∧
    (∃ w, emptyWorld.exec sampleHost [.start [],
        .call (addHome "http://old.local/mcp") [.failed true], .call (.remove "home") []] = some w ∧
      ((restart sampleHost w.disk).2.records.get? "home").isSome = true) ∧
    ∃ w, emptyWorld.exec sampleHost
        [.start [], .call (addHome "http://old.local/mcp\u00a0?") []] = some w ∧
      ¬ w.Survives sampleHost := by
  refine ⟨staleJournal_restores, failedAddition_remains, ?_⟩
  obtain ⟨w, hw, hblocks⟩ := spacedUrl_blocks
  refine ⟨w, hw, ?_⟩
  rintro ⟨t, hrestart, _⟩
  rw [hrestart] at hblocks
  cases hblocks

end CodexBridge.Mcp.Relay
