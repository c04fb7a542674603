import CodexBridge.Journal.Edits
import CodexBridge.Library.Runs

/-! # Replaying the journal

`replay` issues three statements: the retention floor, the matching rows and the
last cursor. Each sees the transactions committed before it, so a transaction may
come between two of them. A consumer calls it again and again and moves its cursor
to the one returned.
-/

namespace CodexBridge.Journal

open Effect

/-! ## Filters -/

structure Filters where
  scopes : Option (List ScopeName)
  threadIds : Option (List String)

/-- The `WHERE` clause on a scope and the column compared with the thread filter; a
`NULL` column equals nothing. -/
def Filters.admits (filters : Filters) (scope : ScopeName) (column : Option String) : Bool :=
  (match filters.scopes with
    | some names => scope ∈ names
    | none => true) &&
  match filters.threadIds with
  | none => true
  | some ids =>
    let listed := match column with
      | some id => id ∈ ids
      | none => false
    match filters.scopes with
    | some names =>
      if names.any fun name => name ≠ .thread then scope ≠ .thread || listed else listed
    | none => scope ≠ .thread || listed

/-- The clause of `_cursor_floor`, on `scope_id`. -/
def Filters.matchesState (filters : Filters) (scope : Scope) : Bool :=
  filters.admits scope.name (some scope.id)

/-- The clause of `_event_filter_sql`, on `thread_id`. -/
def Filters.matchesEvent (filters : Filters) (scope : Scope) : Bool :=
  filters.admits scope.name scope.threadId

/-- The floor covers every scope whose events are read. -/
theorem matchesState_of_matchesEvent {filters : Filters} {scope : Scope}
    (h : filters.matchesEvent scope = true) : filters.matchesState scope = true := by
  cases scope with
  | thread id => exact h
  | auth | runtime =>
    unfold Filters.matchesEvent Filters.admits at h
    unfold Filters.matchesState Filters.admits
    cases hs : filters.scopes with
    | none => cases ht : filters.threadIds <;> simp_all [Scope.name]
    | some names =>
      cases ht : filters.threadIds with
      | none => simp_all
      | some ids =>
        simp only [hs, ht, Scope.threadId] at h ⊢
        by_cases hn : (names.any fun name => name ≠ .thread) = true
        · simp_all [Scope.name]
        · simp_all

def maximum (xs : List Nat) : Nat := xs.foldl max 0

def cursorFloor (db : Database) (filters : Filters) : Nat × Nat :=
  let states := (db.scopes.entries.filter fun e => filters.matchesState e.1).map Prod.snd
  (maximum (states.map ScopeState.minimumCursor), maximum (states.map ScopeState.snapshotCursor))

def selectRows (db : Database) (filters : Filters) (cursor limit : Nat) : List EventRow :=
  (db.events.filter fun e => cursor < e.cursor && filters.matchesEvent e.scope).take limit

/-- `COALESCE(MAX(cursor), 0)`. -/
def lastRetained (db : Database) : Nat := maximum (db.events.map EventRow.cursor)

structure EventBatch where
  events : List Record
  nextCursor : Nat
  minimumCursor : Nat
  hasMore : Bool

/-- The rows that fit into a batch of which `count` rows and `bytes` are taken. -/
def takeBatch (env : Environment) (limit : Nat) : Nat → Nat → List EventRow → List EventRow
  | _, _, [] => []
  | count, bytes, row :: rest =>
    if 0 < count ∧ bytes + row.payloadBytes > env.maxBatchPayloadBytes then []
    else if limit ≤ count then []
    else row :: takeBatch env limit (count + 1) (bytes + row.payloadBytes) rest

/-- The batch `replay` returns, from what its three statements returned. -/
def assemble (env : Environment) (limit cursor minimum : Nat) (rows : List EventRow)
    (last : Nat) : EventBatch :=
  let events := takeBatch env limit 0 0 rows
  { events := events.map eventRecord
    nextCursor := match events.getLast? with
      | some row => row.cursor
      | none => max cursor last
    minimumCursor := minimum
    hasMore := events.length < rows.length }

/-- `min(requested_limit, self.max_batch_events)`. -/
def batchLimit (env : Environment) (limit : Option Int) : Except JournalError Nat :=
  match limit with
  | none => .ok env.maxBatchEvents
  | some n =>
    if n < 1 then .error (.value "event batch limit is invalid")
    else .ok (min n.toNat env.maxBatchEvents)

def cursorExpired (filters : Filters) (cursor : Nat) (floor : Nat × Nat) : JournalError :=
  .cursorExpired cursor floor.1 floor.2
    (match filters.scopes with
      | some [name] => some name.text
      | _ => none)
    (match filters.threadIds with
      | some [id] => some id
      | _ => none)

/-- `replay` when nothing is committed between its statements. -/
def replay (env : Environment) (db : Database) (filters : Filters) (cursor : Nat)
    (limit : Option Int) : Except JournalError EventBatch := do
  let n ← batchLimit env limit
  let floor := cursorFloor db filters
  refuse (cursor < floor.1) (cursorExpired filters cursor floor)
  return assemble env n cursor floor.1 (selectRows db filters cursor (n + 1)) (lastRetained db)

inductive Write where
  | append (request : AppendRequest) (draws : Draws)
  | prepare (fingerprint : String) (envelope : Envelope) (full : Bool)
  | finalize (operationId : String) (isFull : String → Bool)
  | compact (scope : String) (through snapshot : Nat) (threadId : Option String)
  | purge (threadId : String)

def pendingEnvelope (db : Database) (operationId : String) : Except JournalError Envelope :=
  match (db.outbox.get? operationId).bind OutboxRow.pending with
  | some envelope => .ok envelope
  | none => .error (.store "A durable operation is unavailable.")

def Write.commit (env : Environment) (db : Database) : Write → Except JournalError Database
  | .append request draws => (Journal.append env db request draws).map fun r => r.2.2
  | .prepare fingerprint envelope full =>
    (Journal.prepare env db fingerprint envelope full).map Prod.snd
  | .finalize operationId isFull => do
      let envelope ← pendingEnvelope db operationId
      (Journal.finalize env isFull db envelope).map Prod.snd
  | .compact scope through snapshot threadId =>
    (Journal.compact env db scope through snapshot threadId).map Prod.snd
  | .purge threadId => (purgeThread env db threadId).map Prod.snd

/-- Where a call of `replay` stands. A call is final if its batch is returned even when
it is empty: every `replay` is, and the last attempt of a `wait`. -/
inductive Reading where
  | idle
  | checked (limit minimum : Nat) (final : Bool)
  | selected (limit minimum : Nat) (final : Bool) (rows : List EventRow)

structure Session where
  db : Database
  committed : List EventRow
  cursor : Nat
  reading : Reading
  delivered : List Record
  expired : Bool

def Session.start (cursor : Nat) : Session := ⟨.empty, [], cursor, .idle, [], false⟩

inductive Statement where
  | write (w : Write)
  | floor (limit : Option Int) (final : Bool)
  | rows
  | last
  | abandon

def freshEvents (db db' : Database) : List EventRow :=
  db'.events.filter fun e => db.lastCursor < e.cursor

/-- A batch without events sends an attempt of `wait` that is not final back to waiting. -/
def Session.receive (s : Session) (batch : EventBatch) (final : Bool) : Session :=
  if batch.events.isEmpty && !batch.hasMore && !final then { s with reading := .idle }
  else
    { s with
      cursor := batch.nextCursor
      delivered := s.delivered ++ batch.events
      reading := .idle }

def step (env : Environment) (filters : Filters) (s : Session) : Statement → Option Session
  | .write w =>
    match w.commit env s.db with
    | .ok db => some { s with db := db, committed := s.committed ++ freshEvents s.db db }
    | .error _ => some s
  | .floor limit final =>
    match s.reading, batchLimit env limit with
    | .idle, .ok n =>
      let floor := cursorFloor s.db filters
      if s.cursor < floor.1 then some { s with expired := true }
      else some { s with reading := .checked n floor.1 final }
    | _, _ => none
  | .rows =>
    match s.reading with
    | .checked n minimum final =>
      let rows := selectRows s.db filters s.cursor (n + 1)
      some { s with reading := .selected n minimum final rows }
    | _ => none
  | .last =>
    match s.reading with
    | .selected n minimum final rows =>
      some (s.receive (assemble env n s.cursor minimum rows (lastRetained s.db)) final)
    | _ => none
  | .abandon => some { s with reading := .idle }

def floorOf (db : Database) (scope : Scope) : Nat := (scopeState db scope).minimumCursor

theorem scopeState_setScope (db : Database) (scope other : Scope) (f : ScopeState → ScopeState) :
    scopeState (setScope db scope f) other =
      if other = scope then f (scopeState db scope) else scopeState db other := by
  unfold scopeState setScope
  rw [Dict.get?_set]
  split
  · rfl
  · rfl

/-- Events leave only below the floor, and new ones have new cursors. -/
structure Evolves (db db' : Database) : Prop where
  last : db.lastCursor ≤ db'.lastCursor
  floors : ∀ scope, floorOf db scope ≤ floorOf db' scope
  fresh : ∀ e ∈ db'.events, e ∈ db.events ∨ db.lastCursor < e.cursor
  gone : ∀ e ∈ db.events, e ∉ db'.events → e.cursor ≤ floorOf db' e.scope

theorem Evolves.refl (db : Database) : Evolves db db :=
  ⟨le_rfl, fun _ => le_rfl, fun _ he => .inl he, fun _ he hn => absurd he hn⟩

theorem Evolves.trans {db mid db' : Database} (h : Evolves db mid) (k : Evolves mid db') :
    Evolves db db' where
  last := le_trans h.last k.last
  floors scope := le_trans (h.floors scope) (k.floors scope)
  fresh e he := by
    rcases k.fresh e he with hm | hm
    · exact h.fresh e hm
    · exact .inr (lt_of_le_of_lt h.last hm)
  gone e he hn := by
    by_cases hm : e ∈ mid.events
    · exact k.gone e hm hn
    · exact le_trans (h.gone e he hm) (k.floors e.scope)

variable {db db' : Database}

theorem Evolves.of_eq (he : db'.events = db.events)
    (hl : db'.lastCursor = db.lastCursor) (hs : db'.scopes = db.scopes) : Evolves db db' where
  last := le_of_eq hl.symm
  floors scope := by
    unfold floorOf scopeState
    rw [hs]
  fresh e hm := .inl (he ▸ hm)
  gone e hm hn := absurd (he ▸ hm) hn

variable {env : Environment}

theorem Edit.evolves {A : AppendRequest → Prop}
    {added : List Insertion} (h : Edit env A db added db') : Evolves db db' := by
  cases h with
  | insert =>
    refine ⟨Nat.le_succ _, ?_, ?_, ?_⟩
    · intro scope
      unfold floorOf insertEvent
      rw [scopeState_setScope]
      split
      · rename_i hs
        rw [hs]
        rfl
      · rfl
    · intro e he
      rcases List.mem_append.mp he with he | he
      · exact .inl he
      · rw [List.mem_singleton.mp he]
        exact .inr (Nat.lt_succ_self _)
    · intro e he hn
      exact absurd (List.mem_append_left _ he) hn
  | project => exact Evolves.of_eq rfl rfl rfl
  | @evict scope kept f sequence raised below =>
    refine ⟨le_rfl, ?_, ?_, ?_⟩
    · intro other
      unfold floorOf
      rw [scopeState_setScope]
      split
      · rename_i hs
        rw [hs]
        exact raised
      · rfl
    · intro e he
      exact .inl (List.mem_of_mem_filter he)
    · intro e he hn
      have hk : kept e = false := by
        by_contra hk
        exact hn (List.mem_filter.mpr ⟨he, by simpa using hk⟩)
      obtain ⟨hs, hc⟩ := below e he hk
      unfold floorOf
      rw [hs, scopeState_setScope, if_pos rfl]
      exact hc
  | prune pruned =>
    obtain ⟨tombstones, legacy, rfl, _⟩ := prune_spec pruned
    exact Evolves.of_eq rfl rfl rfl

/-- Cursors increase along the table and none is above the last one given out. -/
structure Ordered (db : Database) : Prop where
  sorted : db.events.Pairwise fun a b => a.cursor < b.cursor
  bounded : ∀ e ∈ db.events, e.cursor ≤ db.lastCursor

theorem Edit.ordered {A : AppendRequest → Prop}
    {added : List Insertion} (hi : Ordered db) (h : Edit env A db added db') : Ordered db' := by
  cases h with
  | insert =>
    refine ⟨?_, ?_⟩
    · refine List.pairwise_append.mpr ⟨hi.sorted, List.pairwise_singleton _ _, ?_⟩
      intro a ha b hb
      rw [List.mem_singleton.mp hb]
      exact Nat.lt_succ_of_le (hi.bounded a ha)
    · intro e he
      rcases List.mem_append.mp he with he | he
      · exact le_trans (hi.bounded e he) (Nat.le_succ _)
      · rw [List.mem_singleton.mp he]
        exact le_rfl
  | project => exact ⟨hi.sorted, hi.bounded⟩
  | evict =>
    exact ⟨hi.sorted.filter _, fun e he => hi.bounded e (List.mem_of_mem_filter he)⟩
  | prune pruned =>
    obtain ⟨tombstones, legacy, rfl, _⟩ := prune_spec pruned
    exact ⟨hi.sorted, hi.bounded⟩

theorem Edits.evolves {A : AppendRequest → Prop}
    {added : List Insertion} (h : Edits env A db added db') (hi : Ordered db) :
    Evolves db db' ∧ Ordered db' :=
  ⟨h.relates (R := fun db _ db' => Evolves db db') (fun db => Evolves.refl db)
      (fun _ _ _ _ _ ha hb => ha.trans hb) (fun _ _ _ edit => edit.evolves),
    h.keeps (fun _ _ _ hi edit => edit.ordered hi) hi⟩

theorem Write.evolves {w : Write}
    (h : w.commit env db = .ok db') (hi : Ordered db) : Evolves db db' ∧ Ordered db' := by
  cases w with
  | append request draws =>
    simp only [Write.commit, except_map_eq_ok] at h
    obtain ⟨r, hr, rfl⟩ := h
    exact (append_edits (A := fun _ => True) trivial hr).evolves hi
  | prepare fingerprint envelope full =>
    simp only [Write.commit, except_map_eq_ok] at h
    obtain ⟨r, hr, rfl⟩ := h
    rcases prepare_spec hr with ⟨_, _, _, he, _⟩ | ⟨_, _, _, he⟩
    · rw [he]
      exact ⟨Evolves.refl db, hi⟩
    · rw [he]
      exact ⟨Evolves.of_eq rfl rfl rfl, hi.sorted, hi.bounded⟩
  | finalize operationId isFull =>
    simp only [Write.commit, except_bind_eq_ok, except_map_eq_ok] at h
    obtain ⟨envelope, _, r, hr, rfl⟩ := h
    obtain ⟨appended, _, ha, hp⟩ := finalize_spec hr
    obtain ⟨hev, hor⟩ := (appendEvents_edits (A := fun _ => True)
      (fun _ _ => trivial) ha).evolves hi
    have hmark : Evolves appended (markApplied appended envelope.operationId) :=
      Evolves.of_eq rfl rfl rfl
    have hprune : Edits env (fun _ => True) (markApplied appended envelope.operationId) []
      r.2 := (Edit.prune hp).edits
    obtain ⟨hev', hor'⟩ := hprune.evolves ⟨hor.sorted, hor.bounded⟩
    exact ⟨hev.trans (hmark.trans hev'), hor'⟩
  | compact scope through snapshot threadId =>
    simp only [Write.commit, except_map_eq_ok] at h
    obtain ⟨r, hr, rfl⟩ := h
    exact (compact_edits (A := fun _ => True) hr).evolves hi
  | purge threadId =>
    simp only [Write.commit, except_map_eq_ok] at h
    obtain ⟨r, hr, rfl⟩ := h
    exact (purgeThread_edits (A := fun _ => True) hr).evolves hi

end CodexBridge.Journal
