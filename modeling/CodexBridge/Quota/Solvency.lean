import CodexBridge.Quota.Ledger

/-! # The ledger never overcommits

Pools share filesystems and become idle at different times. What a growth check
found is stated once; every transaction then spends at most the growth it checked.
-/

namespace CodexBridge.Quota

open Effect

/-! ## Solvency -/

def PoolFits (env : Environment) (l : Ledger) (name : String) (growth : Int) : Prop :=
  ∃ definition state, env.pools.get? name = some definition ∧ l.pools.get? name = some state ∧
    state.baselineUsageBytes + l.reservedIn name + growth ≤ definition.limitBytes

def FilesystemFits (env : Environment) (l : Ledger) (fs : String) (growth : Int) : Prop :=
  ∃ state, l.filesystems.get? fs = some state ∧
    freeFloor env state.totalBytes ≤ state.baselineFreeBytes - l.reservedOn fs - growth

structure ReservationRow.Bounded (row : ReservationRow) : Prop where
  reserved : 0 ≤ row.reservedBytes
  consumed : row.consumedBytes ≤ row.reservedBytes
  item : ∀ n, row.itemLimitBytes = some n → row.consumedBytes ≤ n

structure Rows (reservations : Dict String ReservationRow) : Prop where
  bounded : ∀ id row, reservations.get? id = some row → row.Bounded
  distinct : ∀ id row id' row', reservations.get? id = some row →
    reservations.get? id' = some row' → row.pool = row'.pool → row.conflictKey ≠ none →
      row.conflictKey = row'.conflictKey → id = id'

structure Solvent (env : Environment) (l : Ledger) : Prop where
  rows : Rows l.reservations
  pools : ∀ id row, l.reservations.get? id = some row → PoolFits env l row.pool 0
  filesystems : ∀ id row, l.reservations.get? id = some row →
    FilesystemFits env l row.filesystemId 0

structure Roomy (env : Environment) (l : Ledger) (name fs : String) (growth : Int) : Prop where
  rows : Rows l.reservations
  pool : PoolFits env l name growth
  filesystem : FilesystemFits env l fs growth
  pools : ∀ id row, l.reservations.get? id = some row → row.pool ≠ name → PoolFits env l row.pool 0
  filesystems : ∀ id row, l.reservations.get? id = some row → row.filesystemId ≠ fs →
    FilesystemFits env l row.filesystemId 0

section

variable {env : Environment} {l t : Ledger} {name fs : String} {readings : Readings}
  {growth observedGrowth : Int} {space : Space} {quarantined : List String}

theorem hasPool_iff : l.hasPool name = true ↔ ∃ id row, l.reservations.get? id = some row ∧
    row.pool = name := by
  unfold Ledger.hasPool
  simp only [List.any_eq_true, decide_eq_true_eq, Prod.exists, Dict.get?_eq_some_iff]

theorem hasFilesystem_iff : l.hasFilesystem fs = true ↔
    ∃ id row, l.reservations.get? id = some row ∧ row.filesystemId = fs := by
  unfold Ledger.hasFilesystem
  simp only [List.any_eq_true, decide_eq_true_eq, Prod.exists, Dict.get?_eq_some_iff]

theorem hasConflict_iff {key : String} : l.hasConflict name key = true ↔
    ∃ id row, l.reservations.get? id = some row ∧ row.pool = name ∧ row.conflictKey = some key := by
  unfold Ledger.hasConflict
  simp only [List.any_eq_true, Bool.and_eq_true, decide_eq_true_eq, Prod.exists,
    Dict.get?_eq_some_iff]

theorem bind_rows_run {α : Type} (f : Ledger → Action Ledger QuotaError α) (l : Ledger) :
    (rows >>= f) l = f l l := rfl

theorem found_eq_ok {α : Type} {row : Option α} {e : QuotaError} {a : α} :
    found row e = .ok a ↔ row = some a := by
  unfold found
  cases row with
  | none => simp
  | some b => simp

theorem pool_eq_ok {definition : PoolDefinition} (h : pool env name = .ok definition) :
    env.pools.get? name = some definition := by
  unfold pool at h
  split at h
  · cases h
    assumption
  · cases h

theorem filesystemSpace_spec {measured : Int × Int}
    (h : filesystemSpace env name space = .ok measured) :
    measured.1 = space.free ∧ 0 ≤ space.free ∧ space.free ≤ maxSqlInteger := by
  unfold filesystemSpace at h
  obtain ⟨definition, _, h⟩ := except_bind_eq_ok.mp h
  simp only [refuse_bind_eq_ok] at h
  obtain ⟨hfree, _, _, h⟩ := h
  cases h
  have hcount : 0 ≤ space.free ∧ space.free ≤ maxSqlInteger := by
    simpa [isSqlCount] using hfree
  exact ⟨rfl, hcount⟩

/-- `effective_free`: the free space with the consumption added back, at most the baseline. -/
def effectiveFree (l : Ledger) (fs : String) (baselineFree currentFree observedGrowth : Int) :
    Int :=
  min baselineFree (min maxSqlInteger (currentFree + l.consumedOn fs + observedGrowth))

theorem found_eq_error {α : Type} {found? : Option α} {e e' : QuotaError}
    (h : found found? e = .error e') : found? = none ∧ e' = e := by
  unfold found at h
  split at h
  · cases h
  · cases h
    exact ⟨rfl, rfl⟩

theorem pool_eq_error {name : String} {e : QuotaError} (h : pool env name = .error e) :
    env.pools.get? name = none ∧ ∀ resource, e ≠ .exceeded resource := by
  unfold pool at h
  split at h
  · cases h
  · cases h
    rename_i hnone
    exact ⟨hnone, fun resource hn => by cases hn⟩

theorem filesystemSpace_ne_exceeded (env : Environment) (name resource : String) (space : Space) :
    filesystemSpace env name space ≠ .error (.exceeded resource) := by
  intro h
  unfold filesystemSpace at h
  rcases except_bind_eq_error.mp h with h | ⟨definition, _, h⟩
  · exact (pool_eq_error h).2 resource rfl
  simp only [refuse_bind_eq_error] at h
  rcases h with ⟨_, h⟩ | ⟨_, ⟨_, h⟩ | ⟨_, ⟨_, h⟩ | ⟨_, h⟩⟩⟩
  · cases h
  · cases h
  · cases h
  · cases h

/-- The checks of `_ensure_growth` before it compares the free space. -/
structure Admits (env : Environment) (l : Ledger) (quarantined : List String) (name : String)
    (state : FilesystemState) (growth : Int) (space : Space) : Prop where
  admitted : name ∉ quarantined
  pool : PoolFits env l name growth
  space : filesystemSpace env name space = .ok (space.free, state.totalBytes)

/-- The rows once the baseline is lowered. -/
def lowered (l : Ledger) (fs : String) (state : FilesystemState) (space : Space)
    (observedGrowth : Int) : Ledger :=
  let written : FilesystemState :=
    ⟨effectiveFree l fs state.baselineFreeBytes space.free observedGrowth, state.totalBytes⟩
  { l with filesystems := l.filesystems.set fs written }

/-- Refused before the comparison it writes nothing; else it lowers the baseline, even where the
floor then refuses the growth. -/
theorem ensureGrowth_writes :
    Triple (fun s => s = l) (ensureGrowth env quarantined name fs growth observedGrowth space)
      (fun _ t => ∃ state, l.filesystems.get? fs = some state ∧
        Admits env l quarantined name state growth space ∧
          t = lowered l fs state space observedGrowth ∧ freeFloor env state.totalBytes ≤
            effectiveFree l fs state.baselineFreeBytes space.free observedGrowth -
              l.reservedOn fs - growth)
      (fun e t => ∀ state, l.filesystems.get? fs = some state →
        (Admits env l quarantined name state growth space ∧
          t = lowered l fs state space observedGrowth ∧
          effectiveFree l fs state.baselineFreeBytes space.free observedGrowth - l.reservedOn fs -
            growth < freeFloor env state.totalBytes) ∨
        (¬ Admits env l quarantined name state growth space ∧ t = l ∧
          ∀ resource, e = .exceeded resource →
            name ∈ quarantined ∨ ¬ PoolFits env l name growth)) := by
  unfold ensureGrowth
  refine Triple.bind_refusal
    (fun s hs hq state _ => .inr ⟨fun h => h.admitted hq, hs, fun _ _ => .inl hq⟩) fun hq => ?_
  refine Triple.bind (Q := fun a t => a = l ∧ t = l) (Triple.read fun s hs => ⟨hs, hs⟩) fun a => ?_
  refine Triple.of_pure fun ha => ?_
  subst ha
  refine Triple.bind_lift_cases (fun e s hs he state _ => .inr ⟨fun h => ?_, hs,
    fun resource h => ?_⟩) fun pool hpool => ?_
  · obtain ⟨_, _, _, hfound, _⟩ := h.pool
    rw [(found_eq_error he).1] at hfound
    cases hfound
  · rw [(found_eq_error he).2] at h
    cases h
  refine Triple.bind_lift_cases (fun e s hs he state _ => .inr ⟨fun h => ?_, hs,
    fun resource h => ?_⟩) fun definition hdefinition => ?_
  · obtain ⟨_, _, hfound, _⟩ := h.pool
    rw [(pool_eq_error he).1] at hfound
    cases hfound
  · exact absurd h ((pool_eq_error he).2 resource)
  have hfits : PoolFits env a name growth ↔
      ¬ pool.baselineUsageBytes + a.reservedIn name + growth > definition.limitBytes := by
    constructor
    · rintro ⟨_, _, hother, hfound, hle⟩
      rw [pool_eq_ok hdefinition] at hother
      rw [found_eq_ok.mp hpool] at hfound
      cases hother
      cases hfound
      omega
    · intro hle
      exact ⟨definition, pool, pool_eq_ok hdefinition, found_eq_ok.mp hpool, by omega⟩
  refine Triple.bind_refusal (fun s hs hlimit state _ => ?_) fun hlimit => ?_
  · exact .inr ⟨fun h => hfits.mp h.pool hlimit, hs, fun _ _ => .inr fun h => hfits.mp h hlimit⟩
  refine Triple.bind_lift_cases (fun e s hs he state hstate => ?_) fun state hfound => ?_
  · rw [(found_eq_error he).1] at hstate
    cases hstate
  have hstate := found_eq_ok.mp hfound
  refine Triple.bind_lift_cases (fun e s hs he other hother => ?_) fun measured hmeasured => ?_
  · refine .inr ⟨fun h => ?_, hs, fun resource h => ?_⟩
    · rw [h.space] at he
      cases he
    · rw [h] at he
      exact absurd he (filesystemSpace_ne_exceeded env name resource space)
  have hfree := (filesystemSpace_spec hmeasured).1
  obtain ⟨currentFree, currentTotal⟩ := measured
  cases hfree
  refine Triple.bind_refusal (fun s hs htotal other hother => ?_) fun htotal => ?_
  · cases hstate.symm.trans hother
    refine .inr ⟨fun h => ?_, hs, fun _ h => by cases h⟩
    rw [h.space] at hmeasured
    cases hmeasured
    exact htotal rfl
  rw [not_not.mp htotal] at hmeasured
  have hadmits : Admits env a quarantined name state growth space :=
    ⟨hq, hfits.mpr hlimit, hmeasured⟩
  refine Triple.bind (Q := fun _ t => t = lowered a fs state space observedGrowth)
    (Triple.modify fun s hs => by rw [hs]; rfl) fun _ => ?_
  unfold refuse
  refine Triple.lift (fun _ s hs hok => ?_) fun e s hs he other hother => ?_
  · split at hok
    · cases hok
    · rename_i hfloor
      exact ⟨state, hstate, hadmits, hs, not_lt.mp hfloor⟩
  · cases hstate.symm.trans hother
    split at he
    · rename_i hfloor
      exact .inl ⟨hadmits, hs, hfloor⟩
    · cases he

/-- A growth check passes with room, and lowers at most one baseline. -/
theorem ensureGrowth_spec
    (h : ensureGrowth env quarantined name fs growth observedGrowth space l = (.ok (), t)) :
    ∃ state, l.filesystems.get? fs = some state ∧ t = lowered l fs state space observedGrowth ∧
      PoolFits env l name growth ∧ freeFloor env state.totalBytes ≤
        effectiveFree l fs state.baselineFreeBytes space.free observedGrowth - l.reservedOn fs -
          growth := by
  obtain ⟨state, hstate, hadmits, ht, hfloor⟩ := (ensureGrowth_writes l rfl).1 () t h
  exact ⟨state, hstate, ht, hadmits.pool, hfloor⟩

theorem ensureGrowth_rows
    (h : ensureGrowth env quarantined name fs growth observedGrowth space l = (.ok (), t)) :
    t.reservations = l.reservations := by
  obtain ⟨state, _, rfl, _⟩ := ensureGrowth_spec h
  rfl

/-- A refresh touches only baselines nobody claims on. -/
theorem refreshIfIdle_spec (h : refreshIfIdle env name fs readings l = (.ok (), t)) :
    t.reservations = l.reservations ∧
      (∀ other, l.hasPool other = true → t.pools.get? other = l.pools.get? other) ∧
      ∀ other, l.hasFilesystem other = true →
        t.filesystems.get? other = l.filesystems.get? other := by
  unfold refreshIfIdle at h
  rw [bind_rows_run] at h
  by_cases hp : l.hasPool name = true
  · rw [if_pos hp] at h
    obtain ⟨_, rfl⟩ := refusal_eq_ok.mp h
    exact ⟨rfl, fun _ _ => rfl, fun _ _ => rfl⟩
  rw [if_neg hp] at h
  obtain ⟨_, _, h⟩ := lift_bind_eq_ok.mp h
  obtain ⟨_, h⟩ := refusal_bind_eq_ok.mp h
  rw [bind_modify_run] at h
  have hpools : ∀ other, l.hasPool other = true →
      (l.pools.set name ⟨readings.usage, 0⟩).get? other = l.pools.get? other := by
    intro other ho
    refine Dict.get?_set_of_ne _ _ ?_
    rintro rfl
    exact hp ho
  unfold refreshFilesystem at h
  rw [bind_rows_run] at h
  split at h
  · obtain ⟨_, rfl⟩ := refusal_eq_ok.mp h
    exact ⟨rfl, hpools, fun _ _ => rfl⟩
  rename_i hf
  obtain ⟨measured, _, h⟩ := lift_bind_eq_ok.mp h
  cases h
  refine ⟨rfl, hpools, fun other ho => Dict.get?_set_of_ne _ _ ?_⟩
  rintro rfl
  exact hf ho

theorem PoolFits.of_eq (h : PoolFits env l name growth) (hr : t.reservations = l.reservations)
    (hp : t.pools.get? name = l.pools.get? name) : PoolFits env t name growth := by
  obtain ⟨definition, state, hdefinition, hstate, hfits⟩ := h
  refine ⟨definition, state, hdefinition, hp.trans hstate, ?_⟩
  unfold Ledger.reservedIn at hfits ⊢
  rwa [hr]

theorem FilesystemFits.of_eq (h : FilesystemFits env l fs growth)
    (hr : t.reservations = l.reservations)
    (hf : t.filesystems.get? fs = l.filesystems.get? fs) : FilesystemFits env t fs growth := by
  obtain ⟨state, hstate, hfits⟩ := h
  refine ⟨state, hf.trans hstate, ?_⟩
  unfold Ledger.reservedOn at hfits ⊢
  rwa [hr]

theorem Solvent.ensureGrowth (h : Solvent env l)
    (hg : ensureGrowth env quarantined name fs growth observedGrowth space l = (.ok (), t)) :
    Roomy env t name fs growth := by
  obtain ⟨state, _, rfl, hpool, hfloor⟩ := ensureGrowth_spec hg
  refine ⟨h.rows, hpool.of_eq rfl rfl, ⟨_, Dict.get?_set_self _ _ _, hfloor⟩,
    fun id row hrow _ => (h.pools id row hrow).of_eq rfl rfl, fun id row hrow hne => ?_⟩
  exact (h.filesystems id row hrow).of_eq rfl (Dict.get?_set_of_ne _ _ hne)

theorem Solvent.refresh (h : Solvent env l)
    (hr : refreshIfIdle env name fs readings l = (.ok (), t)) : Solvent env t := by
  obtain ⟨hrows, hpools, hfilesystems⟩ := refreshIfIdle_spec hr
  refine ⟨hrows ▸ h.rows, fun id row hrow => ?_, fun id row hrow => ?_⟩
  · rw [hrows] at hrow
    exact (h.pools id row hrow).of_eq hrows (hpools _ (hasPool_iff.mpr ⟨id, row, hrow, rfl⟩))
  · rw [hrows] at hrow
    exact (h.filesystems id row hrow).of_eq hrows
      (hfilesystems _ (hasFilesystem_iff.mpr ⟨id, row, hrow, rfl⟩))

theorem PoolFits.mono (h : PoolFits env l name growth) {less : Int} (hle : less ≤ growth) :
    PoolFits env l name less := by
  obtain ⟨definition, state, hdefinition, hstate, hfits⟩ := h
  exact ⟨definition, state, hdefinition, hstate, by omega⟩

theorem FilesystemFits.mono (h : FilesystemFits env l fs growth) {less : Int}
    (hle : less ≤ growth) : FilesystemFits env l fs less := by
  obtain ⟨state, hstate, hfits⟩ := h
  exact ⟨state, hstate, by omega⟩

theorem Roomy.solvent (h : Roomy env l name fs growth) (hg : 0 ≤ growth) : Solvent env l := by
  refine ⟨h.rows, fun id row hrow => ?_, fun id row hrow => ?_⟩
  · by_cases hp : row.pool = name
    · exact hp ▸ h.pool.mono hg
    · exact h.pools id row hrow hp
  · by_cases hf : row.filesystemId = fs
    · exact hf ▸ h.filesystem.mono hg
    · exact h.filesystems id row hrow hf

end

/-! ## Transactions -/

section

variable {env : Environment} {l t : Ledger} {m : Manager} {handle : Handle} {name fs id : String}
  {growth : Int} {row : ReservationRow}

/-- A new claim spends the room checked for it. -/
theorem Roomy.insert (h : Roomy env l row.pool row.filesystemId row.reservedBytes)
    (hnew : l.reservations.get? id = none) (hbounded : row.Bounded)
    (hkey : ∀ id' row', l.reservations.get? id' = some row' → row'.pool = row.pool →
      row.conflictKey ≠ none → row'.conflictKey ≠ row.conflictKey) :
    Solvent env { l with reservations := l.reservations.set id row } := by
  have hrow : ∀ {id' row'}, (l.reservations.set id row).get? id' = some row' →
      (id' = id ∧ row' = row) ∨ l.reservations.get? id' = some row' := by
    intro id' row' hget
    rw [Dict.get?_set] at hget
    split at hget
    · cases hget
      exact .inl ⟨by assumption, rfl⟩
    · exact .inr hget
  have hin : ∀ p, ({ l with reservations := l.reservations.set id row } : Ledger).reservedIn p =
      l.reservedIn p + if row.pool = p then row.reservedBytes else 0 := fun p =>
    Dict.total_set_of_none hnew row _
  have hon : ∀ p, ({ l with reservations := l.reservations.set id row } : Ledger).reservedOn p =
      l.reservedOn p + if row.filesystemId = p then row.reservedBytes else 0 := fun p =>
    Dict.total_set_of_none hnew row _
  have hpool : PoolFits env { l with reservations := l.reservations.set id row } row.pool 0 := by
    obtain ⟨definition, state, hdefinition, hstate, hfits⟩ := h.pool
    refine ⟨definition, state, hdefinition, hstate, ?_⟩
    rw [hin, if_pos rfl]
    omega
  have hfilesystem : FilesystemFits env { l with reservations := l.reservations.set id row }
      row.filesystemId 0 := by
    obtain ⟨state, hstate, hfits⟩ := h.filesystem
    refine ⟨state, hstate, ?_⟩
    rw [hon, if_pos rfl]
    omega
  refine ⟨⟨fun id' row' hget => ?_, fun id' row' id'' row'' hget hget' hp hk hs => ?_⟩,
    fun id' row' hget => ?_, fun id' row' hget => ?_⟩
  · rcases hrow hget with ⟨_, rfl⟩ | hold
    · exact hbounded
    · exact h.rows.bounded id' row' hold
  · rcases hrow hget with ⟨rfl, rfl⟩ | hold
    · rcases hrow hget' with ⟨rfl, rfl⟩ | hold'
      · rfl
      · exact absurd hs.symm (hkey id'' row'' hold' hp.symm hk)
    · rcases hrow hget' with ⟨rfl, rfl⟩ | hold'
      · exact absurd hs (hkey id' row' hold hp (hs ▸ hk))
      · exact h.rows.distinct id' row' id'' row'' hold hold' hp hk hs
  · by_cases hp : row'.pool = row.pool
    · exact hp ▸ hpool
    rcases hrow hget with ⟨_, rfl⟩ | hold
    · exact absurd rfl hp
    obtain ⟨definition, state, hdefinition, hstate, hfits⟩ := h.pools id' row' hold hp
    refine ⟨definition, state, hdefinition, hstate, ?_⟩
    rw [hin, if_neg fun he => hp he.symm]
    omega
  · by_cases hf : row'.filesystemId = row.filesystemId
    · exact hf ▸ hfilesystem
    rcases hrow hget with ⟨_, rfl⟩ | hold
    · exact absurd rfl hf
    obtain ⟨state, hstate, hfits⟩ := h.filesystems id' row' hold hf
    refine ⟨state, hstate, ?_⟩
    rw [hon, if_neg fun he => hf he.symm]
    omega

theorem Roomy.grow (h : Roomy env l row.pool row.filesystemId growth)
    (hget : l.reservations.get? id = some row) {reserved consumed : Int}
    (hreserved : reserved = row.reservedBytes + growth) (hbounded : ReservationRow.Bounded
      { row with reservedBytes := reserved, consumedBytes := consumed }) :
    Solvent env (setConsumed id row reserved consumed l) := by
  have hrow : ∀ {id' row'}, (setConsumed id row reserved consumed l).reservations.get? id' =
      some row' → ∃ old, l.reservations.get? id' = some old ∧ row'.pool = old.pool ∧
        row'.filesystemId = old.filesystemId ∧ row'.conflictKey = old.conflictKey ∧
        (id' ≠ id → row' = old) ∧ (id' = id → row' =
          { row with reservedBytes := reserved, consumedBytes := consumed }) := by
    intro id' row' hget'
    unfold Quota.setConsumed at hget'
    rw [Dict.get?_set] at hget'
    split at hget'
    · rename_i he
      cases hget'
      exact ⟨row, he ▸ hget, rfl, rfl, rfl, fun hne => absurd he hne, fun _ => rfl⟩
    · rename_i hne
      exact ⟨row', hget', rfl, rfl, rfl, fun _ => rfl, fun he => absurd he hne⟩
  have hin : ∀ p, (setConsumed id row reserved consumed l).reservedIn p =
      l.reservedIn p + if row.pool = p then growth else 0 := by
    intro p
    have hset := Dict.total_set_of_some hget
      { row with reservedBytes := reserved, consumedBytes := consumed }
      (fun _ r => if r.pool = p then r.reservedBytes else 0)
    refine hset.trans ?_
    change l.reservedIn p - (if row.pool = p then row.reservedBytes else 0) +
      (if row.pool = p then reserved else 0) = _
    split
    · omega
    · omega
  have hon : ∀ p, (setConsumed id row reserved consumed l).reservedOn p =
      l.reservedOn p + if row.filesystemId = p then growth else 0 := by
    intro p
    have hset := Dict.total_set_of_some hget
      { row with reservedBytes := reserved, consumedBytes := consumed }
      (fun _ r => if r.filesystemId = p then r.reservedBytes else 0)
    refine hset.trans ?_
    change l.reservedOn p - (if row.filesystemId = p then row.reservedBytes else 0) +
      (if row.filesystemId = p then reserved else 0) = _
    split
    · omega
    · omega
  refine ⟨⟨fun id' row' hget' => ?_, fun id' row' id'' row'' hget' hget'' hp hk hs => ?_⟩,
    fun id' row' hget' => ?_, fun id' row' hget' => ?_⟩
  · obtain ⟨old, hold, _, _, _, hne, heq⟩ := hrow hget'
    by_cases he : id' = id
    · have hnew := heq he
      exact hnew ▸ hbounded
    · have hsame := hne he
      exact hsame ▸ h.rows.bounded id' old hold
  · obtain ⟨old, hold, hpool, _, hkey, _⟩ := hrow hget'
    obtain ⟨old', hold', hpool', _, hkey', _⟩ := hrow hget''
    exact h.rows.distinct id' old id'' old' hold hold' (by rw [← hpool, ← hpool', hp])
      (hkey ▸ hk) (by rw [← hkey, ← hkey', hs])
  · obtain ⟨old, hold, hpool, _⟩ := hrow hget'
    rw [hpool]
    by_cases hp : row.pool = old.pool
    · obtain ⟨definition, state, hdefinition, hstate, hfits⟩ := h.pool
      rw [hp] at hdefinition hstate hfits
      refine ⟨definition, state, hdefinition, hstate, ?_⟩
      rw [hin, if_pos hp]
      omega
    · obtain ⟨definition, state, hdefinition, hstate, hfits⟩ :=
        h.pools id' old hold fun he => hp he.symm
      refine ⟨definition, state, hdefinition, hstate, ?_⟩
      rw [hin, if_neg hp]
      omega
  · obtain ⟨old, hold, _, hfs, _⟩ := hrow hget'
    rw [hfs]
    by_cases hf : row.filesystemId = old.filesystemId
    · obtain ⟨state, hstate, hfits⟩ := h.filesystem
      rw [hf] at hstate hfits
      refine ⟨state, hstate, ?_⟩
      rw [hon, if_pos hf]
      omega
    · obtain ⟨state, hstate, hfits⟩ := h.filesystems id' old hold fun he => hf he.symm
      refine ⟨state, hstate, ?_⟩
      rw [hon, if_neg hf]
      omega

theorem Rows.erase {reservations : Dict String ReservationRow} (h : Rows reservations)
    (id : String) : Rows (reservations.erase id) := by
  have hrow : ∀ {id' row'}, (reservations.erase id).get? id' = some row' →
      reservations.get? id' = some row' := by
    intro id' row' hget
    exact (Dict.get?_erase_cases hget).2
  exact ⟨fun id' row' hget => h.bounded id' row' (hrow hget),
    fun id' row' id'' row'' hget hget' => h.distinct id' row' id'' row'' (hrow hget) (hrow hget')⟩

def settled (l : Ledger) (id : String) (row : ReservationRow) (persisted : Int) : Ledger :=
  { debit row.pool row.filesystemId persisted l with reservations := l.reservations.erase id }

theorem reservedIn_settled (hget : l.reservations.get? id = some row) (persisted : Int)
    (p : String) : (settled l id row persisted).reservedIn p =
      l.reservedIn p - if row.pool = p then row.reservedBytes else 0 :=
  Dict.total_erase hget _

theorem reservedOn_settled (hget : l.reservations.get? id = some row) (persisted : Int)
    (p : String) : (settled l id row persisted).reservedOn p =
      l.reservedOn p - if row.filesystemId = p then row.reservedBytes else 0 :=
  Dict.total_erase hget _

/-- A debit of at most what the claim had or was granted. -/
theorem Roomy.settle (h : Roomy env l row.pool row.filesystemId growth)
    (hget : l.reservations.get? id = some row) {persisted : Int}
    (hle : persisted ≤ row.reservedBytes + growth) : Solvent env (settled l id row persisted) := by
  have hrow : ∀ {id' row'}, (l.reservations.erase id).get? id' = some row' →
      l.reservations.get? id' = some row' := by
    intro id' row' hget'
    exact (Dict.get?_erase_cases hget').2
  refine ⟨h.rows.erase id, fun id' row' hget' => ?_, fun id' row' hget' => ?_⟩
  · by_cases hp : row'.pool = row.pool
    · obtain ⟨definition, state, hdefinition, hstate, hfits⟩ := h.pool
      rw [hp]
      refine ⟨definition, ⟨state.baselineUsageBytes + persisted,
        max 0 (state.baselineFreeBytes - persisted)⟩, hdefinition, ?_, ?_⟩
      · change (l.pools.update row.pool _).get? row.pool = some _
        rw [Dict.get?_update, if_pos rfl, hstate]
        rfl
      · rw [reservedIn_settled hget, if_pos rfl]
        change state.baselineUsageBytes + persisted + _ + 0 ≤ _
        omega
    · obtain ⟨definition, state, hdefinition, hstate, hfits⟩ := h.pools id' row' (hrow hget') hp
      refine ⟨definition, state, hdefinition, ?_, ?_⟩
      · change (l.pools.update row.pool _).get? row'.pool = some _
        rw [Dict.get?_update, if_neg hp, hstate]
      · rw [reservedIn_settled hget, if_neg fun he => hp he.symm]
        omega
  · by_cases hp : row'.filesystemId = row.filesystemId
    · obtain ⟨state, hstate, hfits⟩ := h.filesystem
      rw [hp]
      refine ⟨{ state with baselineFreeBytes := max 0 (state.baselineFreeBytes - persisted) },
        ?_, ?_⟩
      · change (l.filesystems.update row.filesystemId _).get? row.filesystemId = some _
        rw [Dict.get?_update, if_pos rfl, hstate]
        rfl
      · rw [reservedOn_settled hget, if_pos rfl]
        change freeFloor env state.totalBytes ≤ max 0 (state.baselineFreeBytes - persisted) - _ - 0
        omega
    · obtain ⟨state, hstate, hfits⟩ := h.filesystems id' row' (hrow hget') hp
      refine ⟨state, ?_, ?_⟩
      · change (l.filesystems.update row.filesystemId _).get? row'.filesystemId = some _
        rw [Dict.get?_update, if_neg hp, hstate]
      · rw [reservedOn_settled hget, if_neg fun he => hp he.symm]
        omega

/-- A claim leaves without a debit. -/
theorem Solvent.erase (h : Solvent env l) (hget : l.reservations.get? id = some row) :
    Solvent env { l with reservations := l.reservations.erase id } := by
  have hpos := (h.rows.bounded id row hget).reserved
  have hin : ∀ p, ({ l with reservations := l.reservations.erase id } : Ledger).reservedIn p =
      l.reservedIn p - if row.pool = p then row.reservedBytes else 0 := fun p =>
    Dict.total_erase hget _
  have hon : ∀ p, ({ l with reservations := l.reservations.erase id } : Ledger).reservedOn p =
      l.reservedOn p - if row.filesystemId = p then row.reservedBytes else 0 := fun p =>
    Dict.total_erase hget _
  have hrow : ∀ {id' row'}, (l.reservations.erase id).get? id' = some row' →
      l.reservations.get? id' = some row' := by
    intro id' row' hget'
    exact (Dict.get?_erase_cases hget').2
  refine ⟨h.rows.erase id, fun id' row' hget' => ?_, fun id' row' hget' => ?_⟩
  · obtain ⟨definition, state, hdefinition, hstate, hfits⟩ := h.pools id' row' (hrow hget')
    refine ⟨definition, state, hdefinition, hstate, ?_⟩
    rw [hin]
    split
    · omega
    · omega
  · obtain ⟨state, hstate, hfits⟩ := h.filesystems id' row' (hrow hget')
    refine ⟨state, hstate, ?_⟩
    rw [hon]
    split
    · omega
    · omega

section

variable {α : Type} {block : Action Ledger QuotaError α} {e : QuotaError} {a : α}

theorem transaction_returned (h : transaction m block l = (.ok a, t)) :
    block l = (.ok a, t) := by
  unfold transaction at h
  obtain ⟨_, h⟩ := refusal_bind_eq_ok.mp h
  rw [bind_rows_run] at h
  unfold attempt at h
  split at h
  · rename_i hblock
    cases h
    exact hblock
  · cases h

/-- A computation that raises leaves the rows as it found them. -/
def Restores (c : Action Ledger QuotaError α) : Prop := ∀ l e t, c l = (.error e, t) → t = l

theorem Restores.lift_bind {β : Type} {r : Except QuotaError β}
    {f : β → Action Ledger QuotaError α} (h : ∀ b, Restores (f b)) : Restores (lift r >>= f) := by
  intro l e t ht
  rw [bind_run, lift_run] at ht
  cases r with
  | ok b => exact h b l e t ht
  | error e' =>
    cases ht
    rfl

theorem Restores.transaction : Restores (transaction m block) := by
  refine Restores.lift_bind fun _ => ?_
  intro l e t ht
  rw [bind_rows_run] at ht
  unfold attempt at ht
  split at ht
  · cases ht
  · -- the block has raised, whatever it wrote
    cases ht
    rfl

end

theorem restores_reserve {arguments : ReserveArguments} {readings : Readings} :
    Restores (reserve env m id arguments readings) := by
  unfold Quota.reserve
  iterate 6 refine Restores.lift_bind fun _ => ?_
  exact Restores.transaction

theorem restores_check {additional : Int} {readings : Readings} :
    Restores (check env m name additional readings) := by
  unfold Quota.check
  iterate 3 refine Restores.lift_bind fun _ => ?_
  exact Restores.transaction

theorem restores_quarantine : Restores (quarantine m handle) := by
  refine Restores.lift_bind fun _ l e t ht => ?_
  rw [bind_rows_run] at ht
  exact Restores.lift_bind (fun _ => fun _ _ _ h => by cases h) l e t ht

theorem requireActive_spec (h : requireActive l m handle = .ok row) :
    l.reservations.get? handle.id = some row ∧ row.pool = handle.pool := by
  unfold requireActive at h
  obtain ⟨_, h⟩ := refuse_bind_eq_ok.mp h
  obtain ⟨other, hget, h⟩ := except_bind_eq_ok.mp h
  obtain ⟨howner, h⟩ := refuse_bind_eq_ok.mp h
  cases h
  exact ⟨found_eq_ok.mp hget, (not_not.mp howner).1⟩

theorem not_any_lt {limit : Option Int} {n : Int} (h : ¬ limit.any (· < n) = true) :
    ∀ k, limit = some k → n ≤ k := by
  rintro k rfl
  simpa using h

/-- The growth of the pool since the reservation was made, by its usage now. -/
def ReservationRow.measured (row : ReservationRow) (readings : Readings) : Int :=
  readings.usage - row.observedBaselineBytes

/-- `consumed` of `observe_growth`. -/
def ReservationRow.consumedNow (row : ReservationRow) (readings : Readings) : Int :=
  max row.consumedBytes (max 0 (row.measured readings))

/-- `growth` of `observe_growth`. -/
def ReservationRow.growthNow (row : ReservationRow) (readings : Readings) : Int :=
  max 0 (row.consumedNow readings - row.reservedBytes)

/-- What `reserve` adds to a ledger that passed the growth check. -/
structure Inserted (id owner fs : String) (arguments : ReserveArguments) (state : PoolState)
    (checked t : Ledger) : Prop where
  fresh : checked.reservations.get? id = none
  result : t = { checked with
    reservations := checked.reservations.set id ⟨arguments.pool, arguments.amountBytes, 0,
      arguments.itemLimitBytes, arguments.conflictKey, owner, fs, state.baselineUsageBytes⟩ }
  amount : 0 ≤ arguments.amountBytes
  item : ∀ n, arguments.itemLimitBytes = some n → arguments.amountBytes ≤ n

variable {readings : Readings}

theorem reserve_cases {arguments : ReserveArguments}
    (hr : reserve env m id arguments readings l = (.ok (), t)) :
    ∃ fs refreshed checked, refreshIfIdle env arguments.pool fs readings l = (.ok (), refreshed) ∧
      ensureGrowth env m.quarantined arguments.pool fs arguments.amountBytes 0
        readings.space refreshed = (.ok (), checked) ∧
      ∃ state, Inserted id m.ownerId fs arguments state checked t ∧
        ¬ arguments.conflictKey.any (l.hasConflict arguments.pool) = true := by
  unfold Quota.reserve at hr
  obtain ⟨hamount, hr⟩ := refusal_bind_eq_ok.mp hr
  obtain ⟨_, hr⟩ := refusal_bind_eq_ok.mp hr
  obtain ⟨hitem, hr⟩ := refusal_bind_eq_ok.mp hr
  obtain ⟨_, _, hr⟩ := lift_bind_eq_ok.mp hr
  obtain ⟨_, hr⟩ := refusal_bind_eq_ok.mp hr
  obtain ⟨fs, _, hr⟩ := lift_bind_eq_ok.mp hr
  have hr := transaction_returned hr
  rw [bind_rows_run] at hr
  obtain ⟨hconflict, hr⟩ := refusal_bind_eq_ok.mp hr
  obtain ⟨_, refreshed, hrefresh, hr⟩ := bind_eq_ok.mp hr
  obtain ⟨_, checked, hcheck, hr⟩ := bind_eq_ok.mp hr
  refine ⟨fs, refreshed, checked, hrefresh, hcheck, ?_⟩
  unfold insertReservation at hr
  rw [bind_rows_run] at hr
  obtain ⟨state, _, hr⟩ := lift_bind_eq_ok.mp hr
  obtain ⟨hfresh, hr⟩ := refusal_bind_eq_ok.mp hr
  cases hr
  have hnone : checked.reservations.get? id = none := by
    cases hget : checked.reservations.get? id with
    | none => rfl
    | some old => exact absurd (by simp [hget]) hfresh
  have hpos : 0 ≤ arguments.amountBytes := by
    simp [isSqlCount] at hamount
    exact hamount.1
  exact ⟨state, ⟨hnone, rfl, hpos, not_any_lt hitem⟩, hconflict⟩

theorem check_cases {additional : Int}
    (hr : check env m name additional readings l = (.ok (), t)) :
    0 ≤ additional ∧ ∃ fs refreshed, refreshIfIdle env name fs readings l = (.ok (), refreshed) ∧
      ensureGrowth env m.quarantined name fs additional 0 readings.space refreshed =
        (.ok (), t) := by
  unfold Quota.check at hr
  obtain ⟨hamount, hr⟩ := refusal_bind_eq_ok.mp hr
  obtain ⟨_, _, hr⟩ := lift_bind_eq_ok.mp hr
  obtain ⟨fs, _, hr⟩ := lift_bind_eq_ok.mp hr
  obtain ⟨_, refreshed, hrefresh, hr⟩ := bind_eq_ok.mp (transaction_returned hr)
  simp [isSqlCount] at hamount
  exact ⟨hamount.1, fs, refreshed, hrefresh, hr⟩

variable {consumed : Int}

theorem observeGrowth_cases {readings : Readings}
    (hr : observeGrowth env m handle readings l = (.ok consumed, t)) :
    ∃ row checked, l.reservations.get? handle.id = some row ∧ row.pool = handle.pool ∧
      ensureGrowth env m.quarantined handle.pool row.filesystemId (row.growthNow readings)
        (row.growthNow readings) readings.space l = (.ok (), checked) ∧
      t = setConsumed handle.id row (row.reservedBytes + row.growthNow readings)
        (row.consumedNow readings) checked ∧
      ∀ n, row.itemLimitBytes = some n → row.consumedNow readings ≤ n := by
  have hr := transaction_returned hr
  unfold recordGrowth at hr
  rw [bind_rows_run] at hr
  obtain ⟨row, hrow, hr⟩ := lift_bind_eq_ok.mp hr
  obtain ⟨_, _, hr⟩ := lift_bind_eq_ok.mp hr
  obtain ⟨_, hr⟩ := refusal_bind_eq_ok.mp hr
  obtain ⟨hitem, hr⟩ := refusal_bind_eq_ok.mp hr
  obtain ⟨_, checked, hcheck, hr⟩ := bind_eq_ok.mp hr
  cases hr
  obtain ⟨hget, hpool⟩ := requireActive_spec hrow
  exact ⟨row, checked, hget, hpool, hcheck, rfl, not_any_lt hitem⟩

theorem consume_cases {byteCount : Int} {readings : Readings}
    (hr : consume env m handle byteCount readings l = (.ok consumed, t)) :
    ∃ row checked, (l.reservations.get? handle.id = some row ∧ row.pool = handle.pool) ∧
      (∀ n, row.itemLimitBytes = some n → row.consumedBytes + byteCount ≤ n) ∧
      ensureGrowth env m.quarantined handle.pool row.filesystemId
        (max 0 (row.consumedBytes + byteCount - row.reservedBytes)) 0 readings.space l =
          (.ok (), checked) ∧
      t = setConsumed handle.id row
        (row.reservedBytes + max 0 (row.consumedBytes + byteCount - row.reservedBytes))
        (row.consumedBytes + byteCount) checked := by
  unfold Quota.consume at hr
  obtain ⟨_, hr⟩ := refusal_bind_eq_ok.mp hr
  have hr := transaction_returned hr
  rw [bind_rows_run] at hr
  obtain ⟨row, hrow, hr⟩ := lift_bind_eq_ok.mp hr
  obtain ⟨_, hr⟩ := refusal_bind_eq_ok.mp hr
  obtain ⟨hitem, hr⟩ := refusal_bind_eq_ok.mp hr
  obtain ⟨_, checked, hcheck, hr⟩ := bind_eq_ok.mp hr
  cases hr
  exact ⟨row, checked, requireActive_spec hrow, not_any_lt hitem, hcheck, rfl⟩

theorem finish_eq_ok (hr : finish id name l = (.ok (), t)) :
    t = { l with reservations := l.reservations.erase id } := by
  unfold finish at hr
  rw [bind_rows_run] at hr
  obtain ⟨_, hr⟩ := refusal_bind_eq_ok.mp hr
  cases hr
  rfl

theorem commit_cases {persistedBytes : Option Int}
    (hr : commit env m handle persistedBytes readings l = (.ok (), t)) :
    ∃ row checked, (l.reservations.get? handle.id = some row ∧ row.pool = handle.pool) ∧
      0 ≤ persistedBytes.getD row.consumedBytes ∧
      ensureGrowth env m.quarantined handle.pool row.filesystemId
        (max 0 (persistedBytes.getD row.consumedBytes - row.reservedBytes)) 0 readings.space l =
          (.ok (), checked) ∧
      t = { debit handle.pool row.filesystemId (persistedBytes.getD row.consumedBytes) checked with
        reservations := checked.reservations.erase handle.id } := by
  have hr := transaction_returned hr
  rw [bind_rows_run] at hr
  obtain ⟨row, hrow, hr⟩ := lift_bind_eq_ok.mp hr
  obtain ⟨hpersisted, hr⟩ := refusal_bind_eq_ok.mp hr
  obtain ⟨_, hr⟩ := refusal_bind_eq_ok.mp hr
  obtain ⟨_, checked, hcheck, hr⟩ := bind_eq_ok.mp hr
  rw [bind_modify_run] at hr
  simp [isSqlCount] at hpersisted
  exact ⟨row, checked, requireActive_spec hrow, hpersisted.1, hcheck, finish_eq_ok hr⟩

theorem release_cases (hr : release m handle l = (.ok (), t)) :
    ∃ row, (l.reservations.get? handle.id = some row ∧ row.pool = handle.pool) ∧
      t = { l with reservations := l.reservations.erase handle.id } := by
  have hr := transaction_returned hr
  rw [bind_rows_run] at hr
  obtain ⟨row, hrow, hr⟩ := lift_bind_eq_ok.mp hr
  exact ⟨row, requireActive_spec hrow, finish_eq_ok hr⟩

theorem Solvent.reserve {arguments : ReserveArguments}
    (h : Solvent env l) (hr : reserve env m id arguments readings l = (.ok (), t)) :
    Solvent env t := by
  obtain ⟨fs, refreshed, checked, hrefresh, hcheck, state, hinsert, hconflict⟩ := reserve_cases hr
  have hrefreshed := (refreshIfIdle_spec hrefresh).1
  have hchecked := ensureGrowth_rows hcheck
  have hroomy := (h.refresh hrefresh).ensureGrowth hcheck
  have hpos := hinsert.amount
  rw [hinsert.result]
  refine Roomy.insert (by exact hroomy) hinsert.fresh ?_ ?_
  · exact ⟨hpos, hpos, fun n hn => Int.le_trans hpos (hinsert.item n hn)⟩
  intro id' row' hget hp hk hsame
  obtain ⟨key, hkey⟩ := Option.ne_none_iff_exists'.mp hk
  have hkey : arguments.conflictKey = some key := hkey
  rw [hchecked, hrefreshed] at hget
  refine hconflict ?_
  rw [hkey, Option.any_some]
  exact hasConflict_iff.mpr ⟨id', row', hget, hp, hsame.trans hkey⟩

theorem Solvent.check {additional : Int} (h : Solvent env l)
    (hr : check env m name additional readings l = (.ok (), t)) : Solvent env t := by
  obtain ⟨hamount, fs, refreshed, hrefresh, hcheck⟩ := check_cases hr
  exact ((h.refresh hrefresh).ensureGrowth hcheck).solvent hamount

theorem Solvent.observeGrowth (h : Solvent env l)
    (hr : observeGrowth env m handle readings l = (.ok consumed, t)) : Solvent env t := by
  obtain ⟨row, checked, hget, hpool, hcheck, rfl, hitem⟩ := observeGrowth_cases hr
  have hbounded := h.rows.bounded _ row hget
  rw [← hpool] at hcheck
  refine (h.ensureGrowth hcheck).grow (ensureGrowth_rows hcheck ▸ hget) rfl ⟨?_, ?_, hitem⟩
  · have hpos := hbounded.reserved
    change 0 ≤ row.reservedBytes + max 0 _
    omega
  · change row.consumedNow readings ≤
      row.reservedBytes + max 0 (row.consumedNow readings - row.reservedBytes)
    omega

theorem Solvent.consume {byteCount : Int} {readings : Readings}
    (h : Solvent env l) (hr : consume env m handle byteCount readings l = (.ok consumed, t)) :
    Solvent env t := by
  obtain ⟨row, checked, ⟨hget, hpool⟩, hitem, hcheck, rfl⟩ := consume_cases hr
  have hbounded := h.rows.bounded _ row hget
  rw [← hpool] at hcheck
  refine (h.ensureGrowth hcheck).grow (ensureGrowth_rows hcheck ▸ hget) rfl ⟨?_, ?_, hitem⟩
  · have hpos := hbounded.reserved
    change 0 ≤ row.reservedBytes + max 0 _
    omega
  · change row.consumedBytes + byteCount ≤
      row.reservedBytes + max 0 (row.consumedBytes + byteCount - row.reservedBytes)
    omega

theorem Solvent.commit {persistedBytes : Option Int} (h : Solvent env l)
    (hr : commit env m handle persistedBytes readings l = (.ok (), t)) : Solvent env t := by
  obtain ⟨row, checked, ⟨hget, hpool⟩, _, hcheck, rfl⟩ := commit_cases hr
  rw [← hpool] at hcheck ⊢
  refine (h.ensureGrowth hcheck).settle (ensureGrowth_rows hcheck ▸ hget) ?_
  omega

theorem Solvent.release (h : Solvent env l) (hr : release m handle l = (.ok (), t)) :
    Solvent env t := by
  obtain ⟨row, hrow, rfl⟩ := release_cases hr
  exact h.erase hrow.1

theorem initializeLedger_cases {fresh : Bool}
    (hr : initializeLedger m fresh l = (.ok (), t)) :
    ∃ kept : Ledger, kept = (if fresh then { l with reservations := .empty } else l) ∧
      t = { kept with
        pools := kept.pools.filter fun name _ => kept.hasPool name
        filesystems := kept.filesystems.filter fun fs _ => kept.hasFilesystem fs } := by
  have hr := transaction_returned hr
  cases fresh with
  | true =>
    cases hr
    exact ⟨_, rfl, rfl⟩
  | false =>
    simp only [Bool.false_eq_true, if_false] at hr
    rw [bind_rows_run] at hr
    obtain ⟨_, hr⟩ := refusal_bind_eq_ok.mp hr
    cases hr
    exact ⟨l, rfl, rfl⟩

/-- A new owner keeps the baselines that claims stand on. -/
theorem Solvent.initializeLedger {fresh : Bool} (h : Solvent env l)
    (hr : initializeLedger m fresh l = (.ok (), t)) : Solvent env t := by
  obtain ⟨kept, rfl, rfl⟩ := initializeLedger_cases hr
  cases fresh with
  | true =>
    refine ⟨⟨fun id row hget => ?_, fun id row _ _ hget => ?_⟩, fun id row hget => ?_,
      fun id row hget => ?_⟩
    · cases hget
    · cases hget
    · cases hget
    · cases hget
  | false =>
    refine ⟨h.rows, fun id row hget => ?_, fun id row hget => ?_⟩
    · obtain ⟨definition, state, hdefinition, hstate, hfits⟩ := h.pools id row hget
      refine ⟨definition, state, hdefinition, ?_, hfits⟩
      exact (Dict.get?_filter_eq_some_iff _ _ _ _).mpr
        ⟨hstate, hasPool_iff.mpr ⟨id, row, hget, rfl⟩⟩
    · obtain ⟨state, hstate, hfits⟩ := h.filesystems id row hget
      refine ⟨state, ?_, hfits⟩
      exact (Dict.get?_filter_eq_some_iff _ _ _ _).mpr
        ⟨hstate, hasFilesystem_iff.mpr ⟨id, row, hget, rfl⟩⟩

end

section

variable {env : Environment} {s t : System} {c : Call}

/-- A property of the ledger that every operation keeps. -/
structure Lasting (env : Environment) (I : Ledger → Prop) : Prop where
  initializeLedger : ∀ {m fresh l t}, I l →
    Quota.initializeLedger m fresh l = (.ok (), t) → I t
  reserve : ∀ {m id arguments readings l t}, I l →
    Quota.reserve env m id arguments readings l = (.ok (), t) → I t
  check : ∀ {m name bytes readings l t}, I l →
    Quota.check env m name bytes readings l = (.ok (), t) → I t
  observeGrowth : ∀ {m handle readings l consumed t}, I l →
    Quota.observeGrowth env m handle readings l = (.ok consumed, t) → I t
  consume : ∀ {m handle bytes readings l consumed t}, I l →
    Quota.consume env m handle bytes readings l = (.ok consumed, t) → I t
  commit : ∀ {m handle bytes readings l t}, I l →
    Quota.commit env m handle bytes readings l = (.ok (), t) → I t
  release : ∀ {m handle l t}, I l → Quota.release m handle l = (.ok (), t) → I t

theorem lasting_solvent : Lasting env (Solvent env) :=
  ⟨fun h => h.initializeLedger, fun h => h.reserve, fun h => h.check, fun h => h.observeGrowth,
    fun h => h.consume, fun h => h.commit, fun h => h.release⟩

theorem onHandle_cases {h : Nat} {f : Handle → Manager → Except QuotaError Unit × System}
    {r : Except QuotaError Unit × System} (hr : s.onHandle h f = some r) :
    ∃ handle m, f handle m = r := by
  obtain ⟨handle, _, hr⟩ := Option.bind_eq_some_iff.mp hr
  obtain ⟨m, _, hr⟩ := Option.map_eq_some_iff.mp hr
  exact ⟨handle, m, hr⟩

section

variable {α : Type} {call : Action Ledger QuotaError α} {returned : System → System}

theorem run_returned (hr : s.run call returned = (.ok (), t)) :
    ∃ a ledger, call s.ledger = (.ok a, ledger) ∧ returned { s with ledger := ledger } = t := by
  unfold System.run at hr
  split at hr
  · rename_i a ledger hcall
    cases hr
    exact ⟨a, ledger, hcall, rfl⟩
  · cases hr

theorem run_raised {e : QuotaError} (hcall : Restores call)
    (hr : s.run call returned = (.error e, t)) : t.ledger = s.ledger := by
  unfold System.run at hr
  split at hr
  · cases hr
  · rename_i error ledger hraised
    cases hr
    exact hcall _ _ _ hraised

end

/-- Whatever a call wrote before it raised, the rows are those it found. -/
theorem call_raised {e : QuotaError} (hc : s.call env c = some (.error e, t)) :
    t.ledger = s.ledger := by
  cases c with
  | openLedger ownerId =>
    have hr := Option.some.inj hc
    unfold Quota.openLedger at hr
    dsimp only at hr
    split at hr
    · exact run_raised Restores.transaction hr
    · cases hr
      rfl
  | close i => cases hc
  | crash => cases hc
  | reserve i id arguments readings =>
    obtain ⟨m, _, hr⟩ := Option.map_eq_some_iff.mp hc
    exact run_raised restores_reserve hr
  | check i name additionalBytes readings =>
    obtain ⟨m, _, hr⟩ := Option.map_eq_some_iff.mp hc
    exact run_raised restores_check hr
  | observeGrowth i readings =>
    obtain ⟨handle, m, hr⟩ := onHandle_cases hc
    exact run_raised Restores.transaction hr
  | consume i byteCount readings =>
    obtain ⟨handle, m, hr⟩ := onHandle_cases hc
    exact run_raised (Restores.lift_bind fun _ => Restores.transaction) hr
  | commit i persistedBytes readings =>
    obtain ⟨handle, m, hr⟩ := onHandle_cases hc
    exact run_raised Restores.transaction hr
  | release i =>
    obtain ⟨handle, m, hr⟩ := onHandle_cases hc
    split at hr
    · exact run_raised Restores.transaction hr
    · cases hr
  | quarantine i =>
    obtain ⟨handle, m, hr⟩ := onHandle_cases hc
    exact run_raised restores_quarantine hr

variable {I : Ledger → Prop}

theorem Lasting.returned (hk : Lasting env I) (h : I s.ledger)
    (hc : s.call env c = some (.ok (), t)) : I t.ledger := by
  cases c with
  | openLedger ownerId =>
    have hr := Option.some.inj hc
    unfold Quota.openLedger at hr
    dsimp only at hr
    split at hr
    · obtain ⟨_, ledger, hledger, rfl⟩ := run_returned hr
      exact hk.initializeLedger h hledger
    · cases hr
  | close i =>
    cases hc
    exact h
  | crash =>
    cases hc
    exact h
  | reserve i id arguments readings =>
    obtain ⟨m, _, hr⟩ := Option.map_eq_some_iff.mp hc
    obtain ⟨_, ledger, hledger, rfl⟩ := run_returned hr
    exact hk.reserve h hledger
  | check i name additionalBytes readings =>
    obtain ⟨m, _, hr⟩ := Option.map_eq_some_iff.mp hc
    obtain ⟨_, ledger, hledger, rfl⟩ := run_returned hr
    exact hk.check h hledger
  | observeGrowth i readings =>
    obtain ⟨handle, m, hr⟩ := onHandle_cases hc
    obtain ⟨_, ledger, hledger, rfl⟩ := run_returned hr
    exact hk.observeGrowth h hledger
  | consume i byteCount readings =>
    obtain ⟨handle, m, hr⟩ := onHandle_cases hc
    obtain ⟨_, ledger, hledger, rfl⟩ := run_returned hr
    exact hk.consume h hledger
  | commit i persistedBytes readings =>
    obtain ⟨handle, m, hr⟩ := onHandle_cases hc
    obtain ⟨_, ledger, hledger, rfl⟩ := run_returned hr
    exact hk.commit h hledger
  | release i =>
    obtain ⟨handle, m, hr⟩ := onHandle_cases hc
    split at hr
    · obtain ⟨_, ledger, hledger, rfl⟩ := run_returned hr
      exact hk.release h hledger
    · cases hr
      exact h
  | quarantine i =>
    obtain ⟨handle, m, hr⟩ := onHandle_cases hc
    obtain ⟨_, ledger, hledger, rfl⟩ := run_returned hr
    unfold Quota.quarantine at hledger
    obtain ⟨_, hledger⟩ := refusal_bind_eq_ok.mp hledger
    rw [bind_rows_run] at hledger
    obtain ⟨_, _, hledger⟩ := lift_bind_eq_ok.mp hledger
    cases hledger
    exact h

theorem Lasting.next (hk : Lasting env I) (h : I s.ledger) (hn : s.next env c = some t) :
    I t.ledger := by
  obtain ⟨⟨r, u⟩, hc, hu⟩ := Option.map_eq_some_iff.mp hn
  cases hu
  cases r with
  | error e =>
    rw [call_raised hc]
    exact h
  | ok _ => exact hk.returned h hc

theorem solvent_empty (env : Environment) : Solvent env .empty := by
  refine ⟨⟨fun id row hget => ?_, fun id row _ _ hget => ?_⟩, fun id row hget => ?_,
    fun id row hget => ?_⟩
  · cases hget
  · cases hget
  · cases hget
  · cases hget

end

/-- Whatever the disk says at whatever moment, no pool and no filesystem is overcommitted,
and a call that raises leaves the rows as they were. -/
theorem reachable_solvent (env : Environment) (calls : List Call) (s : System)
    (h : Runs.exec (System.next env) .initial calls = some s) :
    Solvent env s.ledger ∧
      ∀ c e t, s.call env c = some (.error e, t) → t.ledger = s.ledger :=
  ⟨Runs.invariant (I := fun s => Solvent env s.ledger)
    (fun _ _ _ hi hn => lasting_solvent.next hi hn) (solvent_empty env) h,
    fun _ _ _ hc => call_raised hc⟩

def sampleEnvironment : Environment where
  pools := .ofList [("private", ⟨1000, true, true, by decide⟩),
    ("workspace", ⟨2000, true, true, by decide⟩)]
  minimumFreeBytes := 100
  minimumFreeFractionPositive := true
  fractionFloor := fun total => total / 20

def sampleReadings (usage free : Int) : Readings :=
  ⟨"disk", usage, ⟨free, usage, 10000⟩, ⟨free, usage, 10000⟩⟩

/-- Claims in both pools; one grows, one is committed, and the owner restarts. -/
def sampleCalls : List Call :=
  [.openLedger "owner", .reserve 0 "a" ⟨"private", 300, some 500, some "upload"⟩
    (sampleReadings 100 2000),
    .reserve 0 "b" ⟨"private", 10, none, some "upload"⟩ (sampleReadings 100 2000),
    .reserve 0 "c" ⟨"workspace", 500, none, none⟩ (sampleReadings 400 1900),
    .consume 0 400 (sampleReadings 400 1900), .consume 0 200 (sampleReadings 400 1900),
    .commit 0 (some 350) (sampleReadings 400 1500), .crash, .openLedger "other",
    .reserve 1 "d" ⟨"workspace", 700, none, none⟩ (sampleReadings 600 1500)]

theorem reachable_solvent_sampleCalls : ∃ s,
    Runs.exec (System.next sampleEnvironment) .initial sampleCalls = some s ∧
      s.ledger.reservations.keys = ["d"] ∧ Solvent sampleEnvironment s.ledger := by
  have hrun : (Runs.exec (System.next sampleEnvironment) .initial sampleCalls).any
      (fun s => s.ledger.reservations.keys = ["d"]) = true := by
    decide +kernel
  obtain ⟨s, hs, hkeys⟩ := (Option.any_eq_true _ _).mp hrun
  exact ⟨s, hs, by simpa using hkeys,
    (reachable_solvent sampleEnvironment sampleCalls s hs).1⟩

end CodexBridge.Quota
