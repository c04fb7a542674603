import CodexBridge.Quota.Solvency

/-! # Bytes that were written

A byte written under a reservation shows twice: in the usage of the pool and in the free
space of its filesystem. `observe_growth` adds back what it has recorded as consumed, and
the part of the growth that lies beyond the reservation.
-/

namespace CodexBridge.Quota

open Effect

/-! ## Baselines are counts -/

def Capped (l : Ledger) : Prop :=
  ∀ fs state, l.filesystems.get? fs = some state → state.baselineFreeBytes ≤ maxSqlInteger

section

variable {env : Environment} {l t : Ledger} {name fs : String} {readings : Readings}
  {growth observedGrowth : Int} {space : Space} {quarantined : List String} {m : Manager}
  {handle : Handle} {id : String}

theorem Capped.of_eq (h : Capped l) (ht : t.filesystems = l.filesystems) : Capped t := by
  unfold Capped
  rw [ht]
  exact h

theorem Capped.set (h : Capped l) {state : FilesystemState}
    (hs : state.baselineFreeBytes ≤ maxSqlInteger)
    (ht : t.filesystems = l.filesystems.set fs state) : Capped t := by
  intro other found hfound
  rw [ht, Dict.get?_set] at hfound
  split at hfound
  · cases hfound
    exact hs
  · exact h other found hfound

theorem Capped.ensureGrowth (h : Capped l)
    (hg : ensureGrowth env quarantined name fs growth observedGrowth space l = (.ok (), t)) :
    Capped t := by
  obtain ⟨state, hstate, rfl, _⟩ := ensureGrowth_spec hg
  have hcap := h fs state hstate
  refine h.set ?_ rfl
  show min _ _ ≤ maxSqlInteger
  omega

theorem Capped.refresh (h : Capped l)
    (hr : refreshIfIdle env name fs readings l = (.ok (), t)) : Capped t := by
  unfold refreshIfIdle at hr
  rw [bind_rows_run] at hr
  split at hr
  · obtain ⟨_, rfl⟩ := refusal_eq_ok.mp hr
    exact h
  obtain ⟨_, _, hr⟩ := lift_bind_eq_ok.mp hr
  obtain ⟨_, hr⟩ := refusal_bind_eq_ok.mp hr
  rw [bind_modify_run] at hr
  unfold refreshFilesystem at hr
  rw [bind_rows_run] at hr
  split at hr
  · obtain ⟨_, rfl⟩ := refusal_eq_ok.mp hr
    exact h.of_eq rfl
  obtain ⟨measured, hmeasured, hr⟩ := lift_bind_eq_ok.mp hr
  have hspec := filesystemSpace_spec hmeasured
  cases hr
  have hbaseline :
      (⟨measured.1, measured.2⟩ : FilesystemState).baselineFreeBytes ≤ maxSqlInteger := by
    show measured.1 ≤ maxSqlInteger
    omega
  exact h.set hbaseline rfl

theorem Capped.debit (h : Capped l) {persisted : Int} (hp : 0 ≤ persisted) :
    Capped (debit name fs persisted l) := by
  intro other state hstate
  have hstate : (l.filesystems.update fs fun state =>
      { state with baselineFreeBytes := max 0 (state.baselineFreeBytes - persisted) }).get? other =
        some state := hstate
  rw [Dict.get?_update] at hstate
  split at hstate
  · obtain ⟨old, hold, rfl⟩ := Option.map_eq_some_iff.mp hstate
    have hcap := h other old hold
    show max 0 (old.baselineFreeBytes - persisted) ≤ maxSqlInteger
    have hmax : 0 ≤ maxSqlInteger := by decide
    omega
  · exact h other state hstate

theorem Capped.reserve {arguments : ReserveArguments} (h : Capped l)
    (hr : reserve env m id arguments readings l = (.ok (), t)) : Capped t := by
  obtain ⟨fs, refreshed, checked, hrefresh, hcheck, state, hinsert, _⟩ := reserve_cases hr
  rw [hinsert.result]
  exact ((h.refresh hrefresh).ensureGrowth hcheck).of_eq rfl

theorem Capped.check {additional : Int} (h : Capped l)
    (hr : check env m name additional readings l = (.ok (), t)) : Capped t := by
  obtain ⟨_, fs, refreshed, hrefresh, hcheck⟩ := check_cases hr
  exact (h.refresh hrefresh).ensureGrowth hcheck

theorem Capped.observeGrowth {consumed : Int} (h : Capped l)
    (hr : observeGrowth env m handle readings l = (.ok consumed, t)) : Capped t := by
  obtain ⟨row, checked, _, _, hcheck, rfl, _⟩ := observeGrowth_cases hr
  exact (h.ensureGrowth hcheck).of_eq rfl

theorem Capped.consume {byteCount consumed : Int} (h : Capped l)
    (hr : consume env m handle byteCount readings l = (.ok consumed, t)) : Capped t := by
  obtain ⟨row, checked, _, _, hcheck, rfl⟩ := consume_cases hr
  exact (h.ensureGrowth hcheck).of_eq rfl

theorem Capped.commit {persistedBytes : Option Int} (h : Capped l)
    (hr : commit env m handle persistedBytes readings l = (.ok (), t)) : Capped t := by
  obtain ⟨row, checked, _, hpersisted, hcheck, rfl⟩ := commit_cases hr
  have hdebited : Capped (Quota.debit handle.pool row.filesystemId
      (persistedBytes.getD row.consumedBytes) checked) := (h.ensureGrowth hcheck).debit hpersisted
  exact hdebited.of_eq rfl

theorem Capped.release (h : Capped l) (hr : release m handle l = (.ok (), t)) : Capped t := by
  obtain ⟨row, _, rfl⟩ := release_cases hr
  exact h.of_eq rfl

theorem Capped.initializeLedger {fresh : Bool} (h : Capped l)
    (hr : initializeLedger m fresh l = (.ok (), t)) : Capped t := by
  obtain ⟨kept, rfl, rfl⟩ := initializeLedger_cases hr
  intro fs state hstate
  have hold := ((Dict.get?_filter_eq_some_iff _ _ _ _).mp hstate).1
  split at hold
  · exact h fs state hold
  · exact h fs state hold

theorem lasting_capped : Lasting env Capped :=
  ⟨fun h => h.initializeLedger, fun h => h.reserve, fun h => h.check, fun h => h.observeGrowth,
    fun h => h.consume, fun h => h.commit, fun h => h.release⟩

theorem reachable_capped {calls : List Call} {s : System}
    (h : Runs.exec (System.next env) .initial calls = some s) : Capped s.ledger :=
  Runs.invariant (I := fun s => Capped s.ledger) (fun _ _ _ hi hn => lasting_capped.next hi hn)
    (fun _ _ hstate => by cases hstate) h

end

section

variable {env : Environment} {l t : Ledger} {readings : Readings} {m : Manager} {handle : Handle}
  {row : ReservationRow} {state : FilesystemState}

def Alone (l : Ledger) (id : String) (row : ReservationRow) : Prop :=
  l.reservations.get? id = some row ∧
    ∀ id' row', l.reservations.get? id' = some row' → row'.filesystemId = row.filesystemId → id' =
      id

def capacityLeft (env : Environment) (l : Ledger) (fs : String) (state : FilesystemState) : Int :=
  state.baselineFreeBytes - l.reservedOn fs - freeFloor env state.totalBytes

/-- `observe_growth` comes to compare the free space: nothing refuses it before. -/
structure LooksAtFree (env : Environment) (m : Manager) (handle : Handle) (row : ReservationRow)
    (state : FilesystemState) (readings : Readings) (l : Ledger) : Prop where
  opened : m.closed = false
  active : handle.active = true
  owner : row.pool = handle.pool ∧ row.ownerId = m.ownerId
  usage : isSqlCount readings.usage = true
  item : ∀ n, row.itemLimitBytes = some n → row.consumedNow readings ≤ n
  admitted : handle.pool ∉ m.quarantined
  pool : PoolFits env l handle.pool (row.growthNow readings)
  space : filesystemSpace env handle.pool readings.space =
    .ok (readings.space.free, state.totalBytes)

structure ChargedOnce (env : Environment) (m : Manager) (handle : Handle) (row : ReservationRow)
    (state : FilesystemState) (readings : Readings) (l : Ledger) : Prop where
  /-- No other baseline is written, not even one that is rolled back. -/
  baseline : m.closed = false →
    (recordGrowth env m handle readings l).2.filesystems.get? row.filesystemId = some state
  /-- Growth within the reservation is refused for the item or a quarantine only. -/
  admitted : row.measured readings ≤ row.reservedBytes → ∀ resource t,
    observeGrowth env m handle readings l = (.error (.exceeded resource), t) →
      handle.pool ∈ m.quarantined ∨ ∃ n, row.itemLimitBytes = some n ∧ n < row.consumedNow readings
  capacity : row.measured readings ≤ row.reservedBytes → ∀ consumed t,
    observeGrowth env m handle readings l = (.ok consumed, t) →
      t.filesystems.get? row.filesystemId = some state ∧
        capacityLeft env t row.filesystemId state = capacityLeft env l row.filesystemId state

section

variable {id : String} (h : Alone l id row)

include h

theorem Alone.total (f : ReservationRow → Int) :
    (l.reservations.total fun _ r => if r.filesystemId = row.filesystemId then f r else 0) =
      f row := by
  have herase := Dict.total_erase h.1
    fun _ r => if r.filesystemId = row.filesystemId then f r else 0
  have hrest : ((l.reservations.erase id).total fun _ r =>
      if r.filesystemId = row.filesystemId then f r else 0) =
        (l.reservations.erase id).total fun _ _ => 0 := by
    apply Dict.total_congr
    intro id' row' hmem
    have hget := (Dict.get?_eq_some_iff _ id' row').mpr hmem
    rw [Dict.get?_erase] at hget
    split at hget
    · cases hget
    rename_i hne
    rw [if_neg]
    intro hsame
    exact hne (h.2 id' row' hget hsame)
  have hzero : ((l.reservations.erase id).total fun _ _ => 0) = 0 := by
    unfold Dict.total
    simp
  rw [if_pos rfl, hrest, hzero] at herase
  omega

theorem Alone.consumedOn :
    l.consumedOn row.filesystemId = row.consumedBytes :=
  h.total ReservationRow.consumedBytes

/-- The drop of free space is made up for exactly if it is no more than what was recorded, or
the record has used up the reservation. -/
theorem Alone.effectiveFree_iff (hreserved : 0 ≤ row.reservedBytes)
    (hcap : state.baselineFreeBytes ≤ maxSqlInteger)
    (hdrop : row.measured readings = state.baselineFreeBytes - readings.space.free) :
    effectiveFree l row.filesystemId state.baselineFreeBytes readings.space.free
        (row.growthNow readings) = state.baselineFreeBytes ↔
      row.measured readings ≤ row.consumedBytes ∨ row.reservedBytes ≤ row.consumedBytes := by
  unfold effectiveFree
  rw [h.consumedOn]
  unfold ReservationRow.growthNow ReservationRow.consumedNow
  constructor
  · intro heffective
    by_contra hnot
    rw [not_or] at hnot
    omega
  · intro hcharged
    omega

end

theorem recordGrowth_writes (hopened : m.closed = false)
    (hget : l.reservations.get? handle.id = some row)
    (hstate : l.filesystems.get? row.filesystemId = some state) :
    Triple (fun s => s = l) (recordGrowth env m handle readings)
      (fun _ t => LooksAtFree env m handle row state readings l ∧
        t.filesystems = (lowered l row.filesystemId state readings.space
          (row.growthNow readings)).filesystems)
      (fun e t =>
        (LooksAtFree env m handle row state readings l ∧
          t.filesystems = (lowered l row.filesystemId state readings.space
            (row.growthNow readings)).filesystems ∧
          effectiveFree l row.filesystemId state.baselineFreeBytes readings.space.free
            (row.growthNow readings) - l.reservedOn row.filesystemId - row.growthNow readings <
              freeFloor env state.totalBytes) ∨
        (¬ LooksAtFree env m handle row state readings l ∧ t = l ∧
          ∀ resource, e = .exceeded resource → row.pool = handle.pool ∧
            (handle.pool ∈ m.quarantined ∨ ¬ PoolFits env l handle.pool (row.growthNow readings) ∨
              ∃ n, row.itemLimitBytes = some n ∧ n < row.consumedNow readings))) := by
  unfold recordGrowth
  refine Triple.bind (Q := fun a t => a = l ∧ t = l) (Triple.read fun s hs => ⟨hs, hs⟩) fun a => ?_
  refine Triple.of_pure fun ha => ?_
  subst ha
  have hactive : requireActive a m handle =
      if handle.active = true ∧ row.pool = handle.pool ∧ row.ownerId = m.ownerId then .ok row
      else .error (.conflict handle.pool) := by
    unfold requireActive
    rw [hget]
    by_cases hhandle : handle.active = true
    · rw [refuse_bind_of_not (by simp [hhandle])]
      change (refuse (¬ (row.pool = handle.pool ∧ row.ownerId = m.ownerId)) _ >>= fun _ =>
        pure row) = _
      by_cases howner : row.pool = handle.pool ∧ row.ownerId = m.ownerId
      · rw [refuse_bind_of_not (not_not.mpr howner), if_pos ⟨hhandle, howner⟩]
        rfl
      · rw [refuse_bind_of howner, if_neg fun h => howner h.2]
    · rw [refuse_bind_of (by simpa using hhandle), if_neg fun h => hhandle h.1]
  rw [hactive]
  split
  · rename_i howner
    refine Triple.bind_lift_of rfl ?_
    refine Triple.bind_lift_cases (fun e s hs he => .inr ⟨fun h => ?_, hs, fun resource h => ?_⟩)
      fun definition hdefinition => ?_
    · obtain ⟨_, _, hfound, _⟩ := h.pool
      rw [(pool_eq_error he).1] at hfound
      cases hfound
    · exact absurd h ((pool_eq_error he).2 resource)
    refine Triple.bind_refusal (fun s hs husage => .inr ⟨fun h => ?_, hs, fun _ h => by cases h⟩)
      fun husage => ?_
    · rw [h.usage] at husage
      cases husage
    refine Triple.bind_refusal (fun s hs hitem => ?_) fun hitem => ?_
    · obtain ⟨n, hn, hlt⟩ := (Option.any_eq_true _ _).mp hitem
      have hlt : n < row.consumedNow readings := of_decide_eq_true hlt
      exact .inr ⟨fun h => absurd (h.item n hn) (not_le.mpr hlt), hs,
        fun _ _ => ⟨howner.2.1, .inr (.inr ⟨n, hn, hlt⟩)⟩⟩
    have hlooks : Admits env a m.quarantined handle.pool state (row.growthNow readings)
        readings.space ↔ LooksAtFree env m handle row state readings a :=
      ⟨fun h => ⟨hopened, howner.1, howner.2, by simpa using husage, not_any_lt hitem,
        h.admitted, h.pool, h.space⟩, fun h => ⟨h.admitted, h.pool, h.space⟩⟩
    refine Triple.bind (ensureGrowth_writes.raises fun e t h => ?_) fun _ => ?_
    · rcases h state hstate with ⟨hadmits, rfl, hfloor⟩ | ⟨hnot, ht, hexceeded⟩
      · exact .inl ⟨hlooks.mp hadmits, rfl, hfloor⟩
      · refine .inr ⟨fun h => hnot (hlooks.mpr h), ht, fun resource he => ⟨howner.2.1, ?_⟩⟩
        exact (hexceeded resource he).imp_right .inl
    refine Triple.bind (Q := fun _ t => LooksAtFree env m handle row state readings a ∧
      t.filesystems = (lowered a row.filesystemId state readings.space
        (row.growthNow readings)).filesystems) (Triple.modify fun t h => ?_) fun _ => ?_
    · obtain ⟨other, hother, hadmits, rfl, _⟩ := h
      cases hstate.symm.trans hother
      exact ⟨hlooks.mp hadmits, rfl⟩
    · exact Triple.pure fun _ h => h
  · rename_i hnot
    refine Triple.bind_lift_cases (fun e s hs he => .inr ⟨fun h => ?_, hs, fun resource h => ?_⟩)
      fun _ ha => by cases ha
    · exact hnot ⟨h.active, h.owner⟩
    · cases he
      cases h

theorem transaction_raised {α : Type} {block : Action Ledger QuotaError α} {e : QuotaError}
    (h : transaction m block l = (.error e, t)) :
    e = .conflict "quota_ledger" ∨ m.closed = false ∧ ∃ u, block l = (.error e, u) := by
  unfold transaction at h
  rw [bind_run, lift_run] at h
  cases hclosed : m.closed with
  | true =>
    rw [hclosed] at h
    cases h
    exact .inl rfl
  | false =>
    rw [hclosed] at h
    refine .inr ⟨rfl, ?_⟩
    change (rows >>= fun begun => attempt block fun e => do
      modify fun _ => begun
      raise e) l = _ at h
    rw [bind_rows_run] at h
    unfold attempt at h
    split at h
    · cases h
    · rename_i error u hblock
      cases h
      exact ⟨u, hblock⟩

/-- What an observation that comes to compare the free space writes as the baseline. -/
theorem recordGrowth_baseline (hopened : m.closed = false)
    (hget : l.reservations.get? handle.id = some row)
    (hstate : l.filesystems.get? row.filesystemId = some state) :
    (recordGrowth env m handle readings l).2.filesystems.get? row.filesystemId = some state ↔
      ¬ LooksAtFree env m handle row state readings l ∨
        effectiveFree l row.filesystemId state.baselineFreeBytes readings.space.free
          (row.growthNow readings) = state.baselineFreeBytes := by
  have hlowered : (lowered l row.filesystemId state readings.space
      (row.growthNow readings)).filesystems.get? row.filesystemId = some state ↔
        effectiveFree l row.filesystemId state.baselineFreeBytes readings.space.free
          (row.growthNow readings) = state.baselineFreeBytes := by
    unfold lowered
    dsimp only
    rw [Dict.get?_set_self]
    cases state with
    | mk baselineFreeBytes totalBytes => simp
  have hwrites : Triple _ (recordGrowth env m handle readings) _ _ :=
    recordGrowth_writes hopened hget hstate
  obtain ⟨hok, herror⟩ := hwrites l rfl
  cases hrun : recordGrowth env m handle readings l with
  | mk r t =>
    cases r with
    | ok consumed =>
      obtain ⟨hlooks, ht⟩ := hok consumed t hrun
      rw [ht, hlowered]
      exact ⟨.inr, fun h => h.resolve_left (not_not.mpr hlooks)⟩
    | error e =>
      rcases herror e t hrun with ⟨hlooks, ht, _⟩ | ⟨hnot, rfl, _⟩
      · rw [ht, hlowered]
        exact ⟨.inr, fun h => h.resolve_left (not_not.mpr hlooks)⟩
      · exact ⟨fun _ => .inl hnot, fun _ => hstate⟩

theorem Alone.chargedOnce (h : Alone l handle.id row) (hs : Solvent env l)
    (hstate : l.filesystems.get? row.filesystemId = some state)
    (hbaseline : ¬ LooksAtFree env m handle row state readings l ∨
      effectiveFree l row.filesystemId state.baselineFreeBytes readings.space.free
        (row.growthNow readings) = state.baselineFreeBytes) :
    ChargedOnce env m handle row state readings l := by
  have hbounded := hs.rows.bounded handle.id row h.1
  have hconsumed := hbounded.consumed
  have hreserved := hbounded.reserved
  have hkept : m.closed = false →
      (recordGrowth env m handle readings l).2.filesystems.get? row.filesystemId = some state :=
    fun hopened => (recordGrowth_baseline hopened h.1 hstate).mpr hbaseline
  have hwithin : row.measured readings ≤ row.reservedBytes → row.growthNow readings = 0 := by
    intro hle
    unfold ReservationRow.growthNow ReservationRow.consumedNow
    omega
  refine ⟨hkept, fun hle resource t herror => ?_, fun hle consumed t ht => ⟨?_, ?_⟩⟩
  · rcases transaction_raised herror with hclosed | ⟨hopened, u, hblock⟩
    · cases hclosed
    rcases (recordGrowth_writes hopened h.1 hstate l rfl).2 _ u hblock with
      ⟨hlooks, _, hfloor⟩ | ⟨_, _, hexceeded⟩
    · rw [hbaseline.resolve_left (not_not.mpr hlooks), hwithin hle] at hfloor
      obtain ⟨found, hfound, hfits⟩ := hs.filesystems handle.id row h.1
      rw [hstate] at hfound
      cases hfound
      omega
    · obtain ⟨hpool, hquarantined | hlimit | hitem⟩ := hexceeded resource rfl
      · exact .inl hquarantined
      · rw [hwithin hle, ← hpool] at hlimit
        exact absurd (hs.pools handle.id row h.1) hlimit
      · exact .inr hitem
  · have hopened : m.closed = false := by
      unfold observeGrowth transaction at ht
      exact Bool.eq_false_iff.mpr (refusal_bind_eq_ok.mp ht).1
    have hrow := hkept hopened
    rw [transaction_returned ht] at hrow
    exact hrow
  · obtain ⟨other, checked, hother, _, hcheck, rfl, _⟩ := observeGrowth_cases ht
    rw [h.1] at hother
    cases hother
    have hrows := ensureGrowth_rows hcheck
    have hget : checked.reservations.get? handle.id = some row := hrows ▸ h.1
    have htotal : (setConsumed handle.id row (row.reservedBytes + row.growthNow readings)
        (row.consumedNow readings) checked).reservedOn row.filesystemId =
          l.reservedOn row.filesystemId := by
      have hset := Dict.total_set_of_some hget
        { row with
          reservedBytes := row.reservedBytes + row.growthNow readings
          consumedBytes := row.consumedNow readings }
        fun _ r => if r.filesystemId = row.filesystemId then r.reservedBytes else 0
      simp only [if_true, hwithin hle] at hset
      unfold Ledger.reservedOn
      rw [← hrows]
      show (checked.reservations.set handle.id _).total _ = _
      rw [hwithin hle, hset]
      omega
    unfold capacityLeft
    rw [htotal]

end

/-- In every reachable ledger an observation whose growth shows in full as a drop of free space
charges it once exactly if it is refused before the free space is compared, the growth is recorded
already, or the record fills the reservation. -/
theorem observeGrowth_chargedOnce_iff (env : Environment) (calls : List Call) (s : System)
    (h : Runs.exec (System.next env) .initial calls = some s) (m : Manager) (handle : Handle)
    (row : ReservationRow) (state : FilesystemState) (readings : Readings)
    (halone : Alone s.ledger handle.id row)
    (hstate : s.ledger.filesystems.get? row.filesystemId = some state)
    (hdrop : row.measured readings = state.baselineFreeBytes - readings.space.free) :
    ChargedOnce env m handle row state readings s.ledger ↔
      ¬ LooksAtFree env m handle row state readings s.ledger ∨
        row.measured readings ≤ row.consumedBytes ∨ row.reservedBytes ≤ row.consumedBytes := by
  have hsolvent := (reachable_solvent env calls s h).1
  have hreserved := (hsolvent.rows.bounded handle.id row halone.1).reserved
  have hcap := reachable_capped h row.filesystemId state hstate
  have hiff := halone.effectiveFree_iff hreserved hcap hdrop
  constructor
  · intro hcharged
    by_cases hlooks : LooksAtFree env m handle row state readings s.ledger
    · have hkept := hcharged.baseline hlooks.opened
      exact ((recordGrowth_baseline hlooks.opened halone.1 hstate).mp hkept).imp_right hiff.mp
    · exact .inl hlooks
  · intro hcondition
    exact halone.chargedOnce hsolvent hstate (hcondition.imp_right hiff.mpr)

/-- A claim of 500 bytes that leaves exactly the floor free, of which some were consumed. -/
def claimCalls (consumed : Int) : List Call :=
  [.openLedger "owner", .reserve 0 "a" ⟨"workspace", 500, none, none⟩ (sampleReadings 400 1000),
    .consume 0 consumed (sampleReadings 400 1000)]

def claimRow (consumed : Int) : ReservationRow :=
  ⟨"workspace", 500, consumed, none, none, "owner", "disk", 400⟩

theorem alone_of_keys {l : Ledger} {id : String} {row : ReservationRow}
    (hkeys : l.reservations.keys = [id]) (hget : l.reservations.get? id = some row) :
    Alone l id row := by
  refine ⟨hget, fun id' row' hget' _ => ?_⟩
  have hmem := (l.reservations.mem_keys_iff id').mpr ⟨row', hget'⟩
  rw [hkeys] at hmem
  exact List.mem_singleton.mp hmem

/-- 200 bytes are consumed, then seen in the usage and in the free space. -/
theorem observeGrowth_chargedOnce_iff_consumed : ∃ s,
    Runs.exec (System.next sampleEnvironment) .initial (claimCalls 200) = some s ∧
      (ChargedOnce sampleEnvironment ⟨"owner", [], false⟩ ⟨0, "a", "workspace", true⟩
        (claimRow 200) ⟨1000, 10000⟩ (sampleReadings 600 800) s.ledger ↔
          ¬ LooksAtFree sampleEnvironment ⟨"owner", [], false⟩ ⟨0, "a", "workspace", true⟩
            (claimRow 200) ⟨1000, 10000⟩ (sampleReadings 600 800) s.ledger ∨
          (claimRow 200).measured (sampleReadings 600 800) ≤ (claimRow 200).consumedBytes ∨
            (claimRow 200).reservedBytes ≤ (claimRow 200).consumedBytes) := by
  have hrun : ((Runs.exec (System.next sampleEnvironment) .initial (claimCalls 200)).any fun s =>
      s.ledger.reservations.keys = ["a"] && s.ledger.reservations.get? "a" = some (claimRow 200) &&
        s.ledger.filesystems.get? "disk" = some ⟨1000, 10000⟩) = true := by
    decide +kernel
  obtain ⟨s, hs, hrun⟩ := (Option.any_eq_true _ _).mp hrun
  simp only [Bool.and_eq_true, decide_eq_true_eq] at hrun
  obtain ⟨⟨hkeys, hrow⟩, hstate⟩ := hrun
  exact ⟨s, hs, observeGrowth_chargedOnce_iff sampleEnvironment (claimCalls 200) s hs
    ⟨"owner", [], false⟩ ⟨0, "a", "workspace", true⟩ (claimRow 200) ⟨1000, 10000⟩
    (sampleReadings 600 800) (alone_of_keys hkeys hrow) hstate (by decide)⟩

/-- Nothing was consumed through the handle: 200 of the 500 reserved bytes are written, all
of the drop of free space is theirs, and the observation is refused. -/
theorem observeGrowth_charges_twice : ∃ s,
    Runs.exec (System.next sampleEnvironment) .initial (claimCalls 0) = some s ∧
      Alone s.ledger "a" (claimRow 0) ∧
      s.ledger.filesystems.get? "disk" = some ⟨1000, 10000⟩ ∧
      (claimRow 0).measured (sampleReadings 600 800) = 1000 - (sampleReadings 600 800).space.free ∧
      (claimRow 0).measured (sampleReadings 600 800) ≤ (claimRow 0).reservedBytes ∧
      (s.call sampleEnvironment (.observeGrowth 0 (sampleReadings 600 800))).map Prod.fst =
        some (.error (.exceeded "workspace")) ∧
      ¬ ChargedOnce sampleEnvironment ⟨"owner", [], false⟩ ⟨0, "a", "workspace", true⟩
        (claimRow 0) ⟨1000, 10000⟩ (sampleReadings 600 800) s.ledger := by
  have hrun : ((Runs.exec (System.next sampleEnvironment) .initial (claimCalls 0)).any fun s =>
      s.ledger.reservations.keys = ["a"] && s.ledger.reservations.get? "a" = some (claimRow 0) &&
        s.ledger.filesystems.get? "disk" = some ⟨1000, 10000⟩ &&
        (s.call sampleEnvironment (.observeGrowth 0 (sampleReadings 600 800))).any (fun r =>
          match r.1 with
          | .error e => e = .exceeded "workspace"
          | .ok _ => false) &&
        (recordGrowth sampleEnvironment ⟨"owner", [], false⟩ ⟨0, "a", "workspace", true⟩
          (sampleReadings 600 800) s.ledger).2.filesystems.get? "disk" ≠ some ⟨1000, 10000⟩) =
      true := by
    decide +kernel
  obtain ⟨s, hs, hrun⟩ := (Option.any_eq_true _ _).mp hrun
  simp only [Bool.and_eq_true, decide_eq_true_eq] at hrun
  obtain ⟨⟨⟨⟨hkeys, hrow⟩, hstate⟩, hcall⟩, hlowered⟩ := hrun
  refine ⟨s, hs, alone_of_keys hkeys hrow, hstate, by decide, by decide, ?_, fun hcharged => ?_⟩
  · obtain ⟨r, hr, herror⟩ := (Option.any_eq_true _ _).mp hcall
    rw [hr, Option.map_some]
    obtain ⟨answer, t⟩ := r
    cases answer with
    | ok _ => cases herror
    | error e => rw [of_decide_eq_true herror]
  · exact hlowered (hcharged.baseline rfl)

end CodexBridge.Quota
