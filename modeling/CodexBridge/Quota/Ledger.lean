import CodexBridge.Library.Totals
import CodexBridge.Library.Effect
import CodexBridge.Library.Runs
import CodexBridge.Library.Json

/-! # The quota ledger

Capacity is claimed in a ledger before bytes are written. The ledger keeps, for a
pool and for a filesystem, a baseline measured while it was idle; claims are added
to it. What the disk says is read by callables, so every reading is an input.
-/

namespace CodexBridge.Quota

open Effect

def maxSqlInteger : Int := 9223372036854775807

inductive QuotaError where
  /-- `ValueError`. -/
  | value (message : String)
  | exceeded (resource : String)
  | conflict (resource : String)
  deriving DecidableEq

/-! ## Tables -/

/-- A `QuotaPool`: its limit, and which of its optional callables it has. -/
structure PoolDefinition where
  limitBytes : Int
  hasTotal : Bool
  hasFilesystem : Bool
  positive : 0 < limitBytes

/-- The configuration of a manager; the fraction of a total is taken in floats. -/
structure Environment where
  pools : Dict String PoolDefinition
  minimumFreeBytes : Int
  minimumFreeFractionPositive : Bool
  fractionFloor : Int → Int

structure PoolState where
  baselineUsageBytes : Int
  baselineFreeBytes : Int

structure FilesystemState where
  baselineFreeBytes : Int
  totalBytes : Int
  deriving DecidableEq

structure ReservationRow where
  pool : String
  reservedBytes : Int
  consumedBytes : Int
  itemLimitBytes : Option Int
  conflictKey : Option String
  ownerId : String
  filesystemId : String
  observedBaselineBytes : Int
  deriving DecidableEq

structure Ledger where
  pools : Dict String PoolState
  filesystems : Dict String FilesystemState
  reservations : Dict String ReservationRow

def Ledger.empty : Ledger := ⟨.empty, .empty, .empty⟩

/-- What one `_filesystem_space` is told; `usage` stands in for a missing total. -/
structure Space where
  free : Int
  usage : Int
  total : Int

/-- What the callables of a pool answer during one call. -/
structure Readings where
  filesystemId : String
  usage : Int
  idleSpace : Space
  space : Space

/-- `SUM(reserved_bytes) … WHERE pool = ?`. -/
def Ledger.reservedIn (l : Ledger) (pool : String) : Int :=
  l.reservations.total fun _ row => if row.pool = pool then row.reservedBytes else 0

/-- `SUM(reserved_bytes) … WHERE filesystem_id = ?`. -/
def Ledger.reservedOn (l : Ledger) (filesystemId : String) : Int :=
  l.reservations.total fun _ row => if row.filesystemId = filesystemId then row.reservedBytes else 0

/-- `SUM(consumed_bytes) … WHERE filesystem_id = ?`. -/
def Ledger.consumedOn (l : Ledger) (filesystemId : String) : Int :=
  l.reservations.total fun _ row => if row.filesystemId = filesystemId then row.consumedBytes else 0

def Ledger.hasPool (l : Ledger) (pool : String) : Bool :=
  l.reservations.entries.any fun e => e.2.pool = pool

def Ledger.hasFilesystem (l : Ledger) (filesystemId : String) : Bool :=
  l.reservations.entries.any fun e => e.2.filesystemId = filesystemId

def Ledger.hasConflict (l : Ledger) (pool conflictKey : String) : Bool :=
  l.reservations.entries.any fun e => e.2.pool = pool && e.2.conflictKey = some conflictKey

def isSqlCount (n : Int) : Bool := 0 ≤ n && n ≤ maxSqlInteger

def pool (env : Environment) (name : String) : Except QuotaError PoolDefinition :=
  match env.pools.get? name with
  | some definition => .ok definition
  | none => .error (.value "quota pool is invalid")

def filesystemId (env : Environment) (name : String) (readings : Readings) :
    Except QuotaError String := do
  let definition ← pool env name
  let id := if definition.hasFilesystem then readings.filesystemId else "pool:" ++ name
  refuse (!PyText.isTrimmed id || id.length > 200) (.conflict name)
  return id

def filesystemSpace (env : Environment) (name : String) (space : Space) :
    Except QuotaError (Int × Int) := do
  let definition ← pool env name
  refuse (!isSqlCount space.free) (.conflict name)
  refuse (!definition.hasTotal && env.minimumFreeFractionPositive) (.conflict name)
  let total := if definition.hasTotal then space.total else space.free + space.usage
  refuse (!(space.free ≤ total && total ≤ maxSqlInteger)) (.conflict name)
  return (space.free, total)

def freeFloor (env : Environment) (totalBytes : Int) : Int :=
  max env.minimumFreeBytes (env.fractionFloor totalBytes)

def rows : Action Ledger QuotaError Ledger := read id

/-- The part of `_refresh_if_idle` for an idle filesystem. -/
def refreshFilesystem (env : Environment) (name fs : String) (readings : Readings) :
    Action Ledger QuotaError Unit := do
  let l ← rows
  if l.hasFilesystem fs then
    lift (refuse (!l.filesystems.contains fs) (.conflict name))
  else
    let (free, total) ← lift (filesystemSpace env name readings.idleSpace)
    modify fun l => { l with filesystems := l.filesystems.set fs ⟨free, total⟩ }

def refreshIfIdle (env : Environment) (name fs : String) (readings : Readings) :
    Action Ledger QuotaError Unit := do
  let l ← rows
  if l.hasPool name then
    lift (refuse (!l.pools.contains name) (.conflict name))
  else
    let _ ← lift (pool env name)
    lift (refuse (!isSqlCount readings.usage) (.conflict name))
    modify fun l => { l with pools := l.pools.set name ⟨readings.usage, 0⟩ }
    refreshFilesystem env name fs readings

def found {α : Type} (row : Option α) (e : QuotaError) : Except QuotaError α :=
  match row with
  | some a => .ok a
  | none => .error e

/-- `_ensure_growth`: a baseline that turns out too high is lowered before the floor is looked
at. -/
def ensureGrowth (env : Environment) (quarantined : List String) (name fs : String)
    (growth observedGrowth : Int) (space : Space) : Action Ledger QuotaError Unit := do
  lift (refuse (name ∈ quarantined) (.exceeded name))
  let l ← rows
  let state ← lift (found (l.pools.get? name) (.conflict name))
  let definition ← lift (pool env name)
  lift (refuse (state.baselineUsageBytes + l.reservedIn name + growth > definition.limitBytes)
    (.exceeded name))
  let filesystem ← lift (found (l.filesystems.get? fs) (.conflict name))
  let (currentFree, currentTotal) ← lift (filesystemSpace env name space)
  lift (refuse (currentTotal ≠ filesystem.totalBytes) (.conflict name))
  let effective := min filesystem.baselineFreeBytes
    (min maxSqlInteger (currentFree + l.consumedOn fs + observedGrowth))
  modify fun l => { l with
    filesystems := l.filesystems.set fs ⟨effective, filesystem.totalBytes⟩ }
  lift (refuse (effective - l.reservedOn fs - growth < freeFloor env filesystem.totalBytes)
    (.exceeded name))

/-! ## Transactions -/

structure Manager where
  ownerId : String
  quarantined : List String
  closed : Bool

/-- A `QuotaReservation`: the manager that made it, its row and whether it is done. -/
structure Handle where
  manager : Nat
  id : String
  pool : String
  active : Bool

/-- `_transaction`: the rows are put back where the block raises. -/
def transaction {α : Type} (m : Manager) (block : Action Ledger QuotaError α) :
    Action Ledger QuotaError α := do
  -- `_require_open`
  lift (refuse m.closed (.conflict "quota_ledger"))
  let begun ← rows
  attempt block fun e => do
    modify fun _ => begun
    raise e

structure ReserveArguments where
  pool : String
  amountBytes : Int
  itemLimitBytes : Option Int
  conflictKey : Option String

/-- The insertion of `reserve`; the id is drawn by `uuid4`. -/
def insertReservation (id owner fs : String) (arguments : ReserveArguments) :
    Action Ledger QuotaError Unit := do
  let l ← rows
  let state ← lift (found (l.pools.get? arguments.pool) (.conflict arguments.pool))
  lift (refuse (l.reservations.contains id) (.conflict arguments.pool))
  modify fun l => { l with
    reservations := l.reservations.set id ⟨arguments.pool, arguments.amountBytes, 0,
      arguments.itemLimitBytes, arguments.conflictKey, owner, fs, state.baselineUsageBytes⟩ }

/-- `reserve` up to the handle it returns. -/
def reserve (env : Environment) (m : Manager) (id : String) (arguments : ReserveArguments)
    (readings : Readings) : Action Ledger QuotaError Unit := do
  lift (refuse (!isSqlCount arguments.amountBytes)
    (.value "reservation amount must not be negative"))
  lift (refuse (arguments.itemLimitBytes.any fun n => !(0 < n && n ≤ maxSqlInteger))
    (.value "item limit must be positive"))
  lift (refuse (arguments.itemLimitBytes.any (· < arguments.amountBytes))
    (.exceeded arguments.pool))
  let _ ← lift (pool env arguments.pool)
  lift (refuse (arguments.pool ∈ m.quarantined) (.exceeded arguments.pool))
  let fs ← lift (filesystemId env arguments.pool readings)
  transaction m do
    let l ← rows
    lift (refuse (arguments.conflictKey.any (l.hasConflict arguments.pool))
      (.conflict arguments.pool))
    refreshIfIdle env arguments.pool fs readings
    ensureGrowth env m.quarantined arguments.pool fs arguments.amountBytes 0 readings.space
    insertReservation id m.ownerId fs arguments

def check (env : Environment) (m : Manager) (name : String) (additionalBytes : Int)
    (readings : Readings) : Action Ledger QuotaError Unit := do
  lift (refuse (!isSqlCount additionalBytes) (.value "additional bytes must not be negative"))
  let _ ← lift (pool env name)
  let fs ← lift (filesystemId env name readings)
  transaction m do
    refreshIfIdle env name fs readings
    ensureGrowth env m.quarantined name fs additionalBytes 0 readings.space

def requireActive (l : Ledger) (m : Manager) (handle : Handle) :
    Except QuotaError ReservationRow := do
  refuse (!handle.active) (.conflict handle.pool)
  let row ← found (l.reservations.get? handle.id) (.conflict handle.pool)
  refuse (¬ (row.pool = handle.pool ∧ row.ownerId = m.ownerId)) (.conflict handle.pool)
  return row

def setConsumed (id : String) (row : ReservationRow) (reserved consumed : Int) (l : Ledger) :
    Ledger :=
  let updated := { row with reservedBytes := reserved, consumedBytes := consumed }
  { l with reservations := l.reservations.set id updated }

/-- The block of `observe_growth`. -/
def recordGrowth (env : Environment) (m : Manager) (handle : Handle) (readings : Readings) :
    Action Ledger QuotaError Int := do
  let l ← rows
  let row ← lift (requireActive l m handle)
  let _ ← lift (pool env handle.pool)
  lift (refuse (!isSqlCount readings.usage) (.conflict handle.pool))
  let observed := max 0 (readings.usage - row.observedBaselineBytes)
  let consumed := max row.consumedBytes observed
  lift (refuse (row.itemLimitBytes.any (· < consumed)) (.exceeded handle.pool))
  let growth := max 0 (consumed - row.reservedBytes)
  ensureGrowth env m.quarantined handle.pool row.filesystemId growth growth readings.space
  modify (setConsumed handle.id row (row.reservedBytes + growth) consumed)
  return consumed

def observeGrowth (env : Environment) (m : Manager) (handle : Handle) (readings : Readings) :
    Action Ledger QuotaError Int :=
  transaction m (recordGrowth env m handle readings)

def consume (env : Environment) (m : Manager) (handle : Handle) (byteCount : Int)
    (readings : Readings) : Action Ledger QuotaError Int := do
  lift (refuse (!isSqlCount byteCount) (.value "consumed bytes must not be negative"))
  transaction m do
    let l ← rows
    let row ← lift (requireActive l m handle)
    let consumed := row.consumedBytes + byteCount
    lift (refuse (consumed > maxSqlInteger) (.exceeded handle.pool))
    lift (refuse (row.itemLimitBytes.any (· < consumed)) (.exceeded handle.pool))
    let growth := max 0 (consumed - row.reservedBytes)
    ensureGrowth env m.quarantined handle.pool row.filesystemId growth 0 readings.space
    modify (setConsumed handle.id row (row.reservedBytes + growth) consumed)
    return consumed

def finish (id name : String) : Action Ledger QuotaError Unit := do
  let l ← rows
  lift (refuse (!l.reservations.contains id) (.conflict name))
  modify fun l => { l with reservations := l.reservations.erase id }

/-- The two `UPDATE`s of `_commit`. -/
def debit (name fs : String) (persisted : Int) (l : Ledger) : Ledger :=
  { l with
    pools := l.pools.update name fun state =>
      ⟨state.baselineUsageBytes + persisted, max 0 (state.baselineFreeBytes - persisted)⟩
    filesystems := l.filesystems.update fs fun state =>
      { state with baselineFreeBytes := max 0 (state.baselineFreeBytes - persisted) } }

def commit (env : Environment) (m : Manager) (handle : Handle) (persistedBytes : Option Int)
    (readings : Readings) : Action Ledger QuotaError Unit :=
  transaction m do
    let l ← rows
    let row ← lift (requireActive l m handle)
    let persisted := persistedBytes.getD row.consumedBytes
    lift (refuse (!isSqlCount persisted) (.value "persisted bytes must not be negative"))
    lift (refuse (row.itemLimitBytes.any (· < persisted)) (.exceeded handle.pool))
    let growth := max 0 (persisted - row.reservedBytes)
    ensureGrowth env m.quarantined handle.pool row.filesystemId growth 0 readings.space
    modify (debit handle.pool row.filesystemId persisted)
    finish handle.id handle.pool

/-- `_release` of a handle still active. -/
def release (m : Manager) (handle : Handle) : Action Ledger QuotaError Unit :=
  transaction m do
    let l ← rows
    let _ ← lift (requireActive l m handle)
    finish handle.id handle.pool

/-- The checks of `_quarantine`, which opens no transaction. -/
def quarantine (m : Manager) (handle : Handle) : Action Ledger QuotaError Unit := do
  lift (refuse m.closed (.conflict "quota_ledger"))
  let l ← rows
  let _ ← lift (requireActive l m handle)

/-- The last transaction of `_initialize_ledger`. -/
def initializeLedger (m : Manager) (recoverAbandoned : Bool) : Action Ledger QuotaError Unit :=
  transaction m do
    if recoverAbandoned then
      modify fun l => { l with reservations := .empty }
    else
      let l ← rows
      lift (refuse (l.reservations.entries.any fun e => e.2.ownerId ≠ m.ownerId)
        (.conflict "quota_ledger"))
    modify fun l => { l with pools := l.pools.filter fun name _ => l.hasPool name }
    modify fun l => { l with filesystems := l.filesystems.filter fun fs _ => l.hasFilesystem fs }

structure System where
  ledger : Ledger
  managers : List Manager
  handles : List Handle

def System.initial : System := ⟨.empty, [], []⟩

inductive Call where
  | openLedger (ownerId : String)
  | close (manager : Nat)
  | crash
  | reserve (manager : Nat) (id : String) (arguments : ReserveArguments) (readings : Readings)
  | check (manager : Nat) (pool : String) (additionalBytes : Int) (readings : Readings)
  | observeGrowth (handle : Nat) (readings : Readings)
  | consume (handle : Nat) (byteCount : Int) (readings : Readings)
  | commit (handle : Nat) (persistedBytes : Option Int) (readings : Readings)
  | release (handle : Nat)
  | quarantine (handle : Nat)

/-- `_acquire_ledger_lock`: whether the lock is fresh. -/
def acquireLedgerLock (managers : List Manager) (ownerId : String) : Except QuotaError Bool :=
  match managers.find? fun m => !m.closed with
  | some held => if held.ownerId = ownerId then .ok false else .error (.conflict "quota_ledger")
  | none => .ok true

/-- What a call on the ledger answers and leaves; `returned` is what it does besides. -/
def System.run {α : Type} (s : System) (call : Action Ledger QuotaError α)
    (returned : System → System) : Except QuotaError Unit × System :=
  match call s.ledger with
  | (.ok _, ledger) => (.ok (), returned { s with ledger := ledger })
  | (.error e, ledger) => (.error e, { s with ledger := ledger })

/-- The checks of `QuotaManager.__init__` before it opens the ledger. -/
def checkOwner (s : System) (ownerId : String) : Except QuotaError Bool := do
  refuse (ownerId.toList.all PyText.isSpace || ownerId.length > 200)
    (.value "quota owner id is invalid")
  acquireLedgerLock s.managers ownerId

/-- `QuotaManager.__init__`. -/
def openLedger (s : System) (ownerId : String) : Except QuotaError Unit × System :=
  let m : Manager := ⟨ownerId, [], false⟩
  match checkOwner s ownerId with
  | .ok fresh =>
    s.run (initializeLedger m fresh) fun t => { t with managers := t.managers ++ [m] }
  | .error e => (.error e, s)

/-- `reservation._active = False`. -/
def System.deactivate (h : Nat) (s : System) : System :=
  { s with handles := s.handles.modify h fun handle => { handle with active := false } }

def System.onHandle (s : System) (h : Nat)
    (call : Handle → Manager → Except QuotaError Unit × System) :
    Option (Except QuotaError Unit × System) :=
  s.handles[h]?.bind fun handle => s.managers[handle.manager]?.map (call handle)

def System.call (env : Environment) (s : System) :
    Call → Option (Except QuotaError Unit × System)
  | .openLedger ownerId => some (openLedger s ownerId)
  | .close i =>
      some (.ok (), { s with managers := s.managers.modify i fun m => { m with closed := true } })
  | .crash =>
      some (.ok (), { s with managers := s.managers.map fun m => { m with closed := true } })
  | .reserve i id arguments readings =>
    s.managers[i]?.map fun m => s.run (reserve env m id arguments readings) fun t =>
      { t with handles := t.handles ++ [⟨i, id, arguments.pool, true⟩] }
  | .check i name additionalBytes readings =>
    s.managers[i]?.map fun m => s.run (check env m name additionalBytes readings) id
  | .observeGrowth h readings =>
    s.onHandle h fun handle m => s.run (observeGrowth env m handle readings) id
  | .consume h byteCount readings =>
    s.onHandle h fun handle m => s.run (consume env m handle byteCount readings) id
  | .commit h persistedBytes readings =>
    s.onHandle h fun handle m =>
      s.run (commit env m handle persistedBytes readings) (System.deactivate h)
  | .release h =>
    s.onHandle h fun handle m =>
      if handle.active then s.run (release m handle) (System.deactivate h) else (.ok (), s)
  | .quarantine h =>
    s.onHandle h fun handle m => s.run (quarantine m handle) fun t => { t with
      managers := t.managers.modify handle.manager fun m =>
        { m with quarantined := handle.pool :: m.quarantined } }

def System.next (env : Environment) (s : System) (c : Call) : Option System :=
  (s.call env c).map Prod.snd

end CodexBridge.Quota
