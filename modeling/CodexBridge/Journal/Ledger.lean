import CodexBridge.Journal.Edits

/-! # Dedupe rows under edits

An operation key has a ledger row from its insertion until a pruning replaces the
row by a tombstone. The rows of one operation id are pruned together, and with the
last of them goes the row of the operation.
-/

namespace CodexBridge.Journal

/-! ## Groups of orphaned rows -/

variable {db : Database}

theorem mem_orphanRows {k : String} {row : LedgerRow} :
    (k, row) ∈ orphanRows db ↔ db.ledger.get? k = some row ∧ isOrphan db k row = true := by
  unfold orphanRows
  rw [List.mem_insertionSort, List.mem_filter, Dict.get?_eq_some_iff]

theorem mem_orphanGroups (rows : List (String × LedgerRow)) (g : Group) (k : String) :
    (∃ keys, (orphanGroups rows).get? g = some keys ∧ k ∈ keys) ↔
      ∃ row, (k, row) ∈ rows ∧ groupOf k row = g := by
  have key : ∀ (rows : List (String × LedgerRow)) (groups : Dict Group (List String)),
      (∃ keys, (rows.foldl (fun groups e =>
          groups.set (groupOf e.1 e.2) ((groups.get? (groupOf e.1 e.2)).getD [] ++ [e.1]))
          groups).get? g = some keys ∧ k ∈ keys) ↔
        (∃ keys, groups.get? g = some keys ∧ k ∈ keys) ∨
          ∃ row, (k, row) ∈ rows ∧ groupOf k row = g := by
    intro rows
    induction rows with
    | nil => simp
    | cons e rows ih =>
      intro groups
      rw [List.foldl_cons, ih, Dict.get?_set]
      obtain ⟨k', row'⟩ := e
      by_cases hg : g = groupOf k' row'
      · rw [if_pos hg]
        constructor
        · rintro (⟨keys, hk, hm⟩ | ⟨row, hm, hr⟩)
          · cases hk
            rcases List.mem_append.mp hm with hm | hm
            · cases hold : groups.get? g with
              | none =>
                rw [← hg, hold] at hm
                cases hm
              | some keys =>
                rw [← hg, hold] at hm
                exact .inl ⟨keys, rfl, hm⟩
            · rw [List.mem_singleton.mp hm]
              exact .inr ⟨row', List.mem_cons_self, hg.symm⟩
          · exact .inr ⟨row, List.mem_cons_of_mem _ hm, hr⟩
        · rintro (⟨keys, hk, hm⟩ | ⟨row, hm, hr⟩)
          · refine .inl ⟨_, rfl, List.mem_append_left _ ?_⟩
            rw [← hg, hk]
            exact hm
          rcases List.mem_cons.mp hm with he | hm
          · cases he
            exact .inl ⟨_, rfl, List.mem_append_right _ List.mem_cons_self⟩
          · exact .inr ⟨row, hm, hr⟩
      · rw [if_neg hg]
        constructor
        · rintro (h | ⟨row, hm, hr⟩)
          · exact .inl h
          · exact .inr ⟨row, List.mem_cons_of_mem _ hm, hr⟩
        rintro (h | ⟨row, hm, hr⟩)
        · exact .inl h
        rcases List.mem_cons.mp hm with he | hm
        · cases he
          exact absurd hr.symm hg
        · exact .inr ⟨row, hm, hr⟩
  have h := key rows Dict.empty
  simpa [orphanGroups] using h

theorem keysToExpire_eq (remaining : Nat) (groups : List (List String)) :
    ∃ n, keysToExpire remaining groups = (groups.drop n).flatten := by
  induction groups generalizing remaining with
  | nil => exact ⟨0, rfl⟩
  | cons keys rest ih =>
    unfold keysToExpire
    split
    · obtain ⟨n, hn⟩ := ih (remaining - keys.length)
      exact ⟨n + 1, hn⟩
    · exact ⟨0, rfl⟩

variable {env : Environment}

theorem expiredKeys_group {k : String} (h : k ∈ expiredKeys env db) :
    ∃ row, db.ledger.get? k = some row ∧ isOrphan db k row = true ∧
      ∀ k' row', db.ledger.get? k' = some row' → isOrphan db k' row' = true →
        groupOf k' row' = groupOf k row → k' ∈ expiredKeys env db := by
  unfold expiredKeys at h ⊢
  obtain ⟨n, hn⟩ :=
    keysToExpire_eq env.maxOrphanedMetadataRows (orphanGroups (orphanRows db)).values
  rw [hn] at h ⊢
  obtain ⟨keys, hkeys, hk⟩ := List.mem_flatten.mp h
  obtain ⟨g, hg⟩ := (Dict.mem_values_iff _ _).mp (List.mem_of_mem_drop hkeys)
  obtain ⟨row, hrow, hgroup⟩ := (mem_orphanGroups _ g k).mp ⟨keys, hg, hk⟩
  obtain ⟨hget, horphan⟩ := mem_orphanRows.mp hrow
  refine ⟨row, hget, horphan, ?_⟩
  intro k' row' hget' horphan' hsame
  obtain ⟨keys', hg', hk'⟩ := (mem_orphanGroups _ g k').mpr
    ⟨row', mem_orphanRows.mpr ⟨hget', horphan'⟩, hsame.trans hgroup⟩
  rw [hg] at hg'
  cases hg'
  exact List.mem_flatten.mpr ⟨keys, hkeys, hk'⟩

theorem prunedLedger_get? {k : String} {row : LedgerRow} :
    (prunedLedger env db).get? k = some row ↔
      db.ledger.get? k = some row ∧ k ∉ expiredKeys env db := by
  unfold prunedLedger
  rw [Dict.get?_filter_eq_some_iff, decide_eq_true_iff]

def Recorded (db : Database) : Prop :=
  ∀ e ∈ db.events, ∃ row, db.ledger.get? e.operationKey = some row ∧ row.operationId = e.operationId

variable {id : String}

theorem isOrphan_of_same (hr : Recorded db) {k k' : String}
    {row row' : LedgerRow} (h : isOrphan db k row = true)
    (hid : row.operationId = some id) (hget' : db.ledger.get? k' = some row')
    (hid' : row'.operationId = some id) : isOrphan db k' row' = true := by
  unfold isOrphan at h ⊢
  rw [hid] at h
  rw [hid']
  simp only [Bool.and_eq_true, Bool.not_eq_true'] at h ⊢
  obtain ⟨_, hev, hpend⟩ := h
  refine ⟨?_, hev, hpend⟩
  -- an event of the key would be an event of the operation
  by_contra hkey
  simp only [Bool.not_eq_false, hasEventKey, List.any_eq_true, decide_eq_true_eq] at hkey
  obtain ⟨e, he, hk⟩ := hkey
  obtain ⟨row'', hget'', hop⟩ := hr e he
  rw [hk, hget'] at hget''
  cases hget''
  have hof : hasEventOf db id = true := by
    simp only [hasEventOf, List.any_eq_true, decide_eq_true_eq]
    exact ⟨e, he, hop.symm.trans hid'⟩
  rw [hof] at hev
  cases hev

theorem pruned_all_or_none (hr : Recorded db) {k k' : String}
    {row row' : LedgerRow} (hget : db.ledger.get? k = some row)
    (hid : row.operationId = some id) (hget' : db.ledger.get? k' = some row')
    (hid' : row'.operationId = some id) (h : k ∈ expiredKeys env db) :
    k' ∈ expiredKeys env db := by
  obtain ⟨row₀, hget₀, horphan, hall⟩ := expiredKeys_group h
  rw [hget] at hget₀
  cases hget₀
  refine hall k' row' hget' (isOrphan_of_same hr horphan hid hget' hid') ?_
  unfold groupOf
  rw [hid, hid']

theorem not_mem_expiredKeys {e : EventRow}
    (he : e ∈ db.events) : e.operationKey ∉ expiredKeys env db := by
  intro h
  obtain ⟨row, _, horphan, _⟩ := expiredKeys_group h
  have hkey : hasEventKey db e.operationKey = true := by
    simp only [hasEventKey, List.any_eq_true, decide_eq_true_eq]
    exact ⟨e, he, rfl⟩
  unfold isOrphan at horphan
  rw [hkey] at horphan
  cases horphan

theorem not_mem_expiredKeys_of_pending {k id : String}
    {row : LedgerRow} (hget : db.ledger.get? k = some row) (hid : row.operationId = some id)
    (hp : isPending db id = true) : k ∉ expiredKeys env db := by
  intro h
  obtain ⟨row₀, hget₀, horphan, _⟩ := expiredKeys_group h
  rw [hget] at hget₀
  cases hget₀
  unfold isOrphan at horphan
  rw [hid] at horphan
  simp only [Bool.and_eq_true, Bool.not_eq_true', hp] at horphan
  cases horphan.2.2

theorem mem_emptyOperations {row : OutboxRow} :
    (id, row) ∈ emptyOperations db ↔
      db.outbox.get? id = some row ∧ row.pending = none ∧ hasEventOf db id = false ∧
        ∀ k r, db.ledger.get? k = some r → r.operationId ≠ some id := by
  unfold emptyOperations
  rw [List.mem_reverse, List.mem_filter, ← Dict.get?_eq_some_iff]
  simp only [Bool.and_eq_true, Bool.not_eq_true', Option.isNone_iff_eq_none,
    List.any_eq_false, decide_eq_true_eq, Dict.mem_values_iff]
  constructor
  · rintro ⟨hget, ⟨hp, hev⟩, hrows⟩
    exact ⟨hget, hp, hev, fun k r hr => hrows r ⟨k, hr⟩⟩
  rintro ⟨hget, hp, hev, hrows⟩
  refine ⟨hget, ⟨hp, hev⟩, ?_⟩
  intro r hr
  obtain ⟨k, hk⟩ := hr
  exact hrows k r hk

theorem expiredOperations_spec {db : Database} (h : id ∈ expiredOperations env db) :
    ∃ row, db.outbox.get? id = some row ∧ row.pending = none ∧
      ∀ k r, (prunedLedger env db).get? k = some r → r.operationId ≠ some id := by
  unfold expiredOperations operationsToExpire at h
  have hm : ∃ row, (id, row) ∈ emptyOperations { db with ledger := prunedLedger env db } := by
    rcases List.mem_append.mp h with h | h
    · obtain ⟨e, he, rfl⟩ := List.mem_map.mp h
      exact ⟨e.2, List.mem_of_mem_filter he⟩
    · obtain ⟨e, he, rfl⟩ := List.mem_map.mp (List.mem_of_mem_drop h)
      exact ⟨e.2, List.mem_of_mem_filter he⟩
  obtain ⟨row, hm⟩ := hm
  obtain ⟨hget, hp, _, hrows⟩ := mem_emptyOperations.mp hm
  exact ⟨row, hget, hp, hrows⟩

theorem mem_expiredOperations {row : OutboxRow}
    (hget : db.outbox.get? id = some row) (hp : row.pending = none)
    (hhas : row.hasEvents = true) (hev : hasEventOf db id = false)
    (hrows : ∀ k r, (prunedLedger env db).get? k = some r → r.operationId ≠ some id) :
    id ∈ expiredOperations env db := by
  have hm : (id, row) ∈ emptyOperations { db with ledger := prunedLedger env db } :=
    mem_emptyOperations.mpr ⟨hget, hp, hev, hrows⟩
  unfold expiredOperations operationsToExpire
  refine List.mem_append_left _ (List.mem_map.mpr ⟨(id, row), ?_, rfl⟩)
  exact List.mem_filter.mpr ⟨hm, hhas⟩

theorem prunedOutbox_get? {row : OutboxRow} :
    (db.outbox.filter fun k _ => k ∉ expiredOperations env db).get? id = some row ↔
      db.outbox.get? id = some row ∧ id ∉ expiredOperations env db := by
  rw [Dict.get?_filter_eq_some_iff, decide_eq_true_iff]

section

variable {env : Environment} {A : AppendRequest → Prop} {db db' : Database}
  {added : List Insertion}

def insertedRow (fingerprint : String) (record : Record) : LedgerRow :=
  ⟨fingerprint, record.cursor, record.eventId, record.operationId, record.scope,
    record.scopeSequence, record.eventType, record.timestamp⟩

theorem insertEvent_ledger (db : Database) (c : CheckedAppend) (k : String) :
    (insertEvent db c).ledger.get? k =
      if k = c.operationKey then some (insertedRow c.fingerprint (eventRecord (newEvent db c)))
      else db.ledger.get? k :=
  Dict.get?_set _ _ _ _

theorem insertEvent_events (db : Database) (c : CheckedAppend) :
    (insertEvent db c).events = db.events ++ [newEvent db c] := rfl

theorem boundedIdentifier_eq {value field : String} {maximum : Nat} {checked : String}
    (h : boundedIdentifier value field maximum = .ok checked) : checked = value := by
  unfold boundedIdentifier at h
  split at h
  · cases h
    rfl
  · cases h

theorem optionalIdentifier_eq {value : Option String} {field : String} {maximum : Nat}
    {checked : Option String} (h : optionalIdentifier value field maximum = .ok checked) :
    checked = value := by
  unfold optionalIdentifier at h
  cases value with
  | none =>
    cases h
    rfl
  | some v =>
    obtain ⟨w, hw, rfl⟩ := Effect.except_map_eq_ok.mp h
    rw [boundedIdentifier_eq hw]

def AppendRequest.content (request : AppendRequest) : Except JournalError Digest := do
  let scope ← normalizeScope request.scope request.threadId
  let payload ← projectPayload request.eventType request.payload
  return .event scope request.eventType payload request.timestamp request.scopeSequence

theorem checkAppend_spec {request : AppendRequest} {draws : Draws} {c : CheckedAppend}
    (h : checkAppend env request draws = .ok c) :
    c.operationKey = request.operationKey ∧ c.operationId = request.operationId ∧
      ∃ content, request.content = .ok content ∧ c.fingerprint = env.sha256 content ∧
        projectPayload request.eventType request.payload = .ok c.payload := by
  have hc := checkAppend_checked h
  obtain ⟨given, htime, _, hprint⟩ := hc.timestamp
  rw [boundedIdentifier_eq hc.eventType, optionalIdentifier_eq htime] at hprint
  have hpayload := hc.payload
  rw [boundedIdentifier_eq hc.eventType] at hpayload
  refine ⟨boundedIdentifier_eq hc.key, optionalIdentifier_eq hc.operationId, _, ?_, hprint,
    hpayload⟩
  unfold AppendRequest.content
  rw [hc.scope, Effect.except_pure_bind, hpayload, Effect.except_pure_bind]
  rfl

theorem Edit.recorded (hi : Recorded db) (h : Edit env A db added db') : Recorded db' := by
  cases h with
  | @insert request draws c admitted checked fresh unexpired free =>
    intro e he
    rw [insertEvent_events] at he
    rw [insertEvent_ledger]
    rcases List.mem_append.mp he with he | he
    · obtain ⟨row, hget, hop⟩ := hi e he
      have hne : e.operationKey ≠ c.operationKey := by
        intro heq
        rw [heq, fresh] at hget
        cases hget
      rw [if_neg hne]
      exact ⟨row, hget, hop⟩
    · rw [List.mem_singleton.mp he]
      exact ⟨_, if_pos rfl, rfl⟩
  | project => exact hi
  | evict => exact fun e he => hi e (List.mem_of_mem_filter he)
  | prune pruned =>
    obtain ⟨tombstones, legacy, rfl, _⟩ := prune_spec pruned
    intro e he
    obtain ⟨row, hget, hop⟩ := hi e he
    exact ⟨row, prunedLedger_get?.mpr ⟨hget, not_mem_expiredKeys he⟩, hop⟩

/-! ## What a transaction leaves behind -/

def Made (i : Insertion) : Prop :=
  projectPayload i.request.eventType i.request.payload = .ok i.record.payload ∧
    i.record.operationId = i.request.operationId

def Taken (env : Environment) (db : Database) (k : String) : Prop :=
  (∃ row, db.ledger.get? k = some row) ∨ eventTombstoneKey env k ∈ db.tombstones

def TakenId (env : Environment) (db : Database) (id : String) : Prop :=
  (∃ row, db.outbox.get? id = some row) ∨ outboxTombstoneKey env id ∈ db.tombstones

/-- What a transaction does to the dedupe tables, given what it inserts. -/
structure Leaves (env : Environment) (db : Database) (added : List Insertion) (db' : Database) :
    Prop where
  made : ∀ i ∈ added, Made i
  rows : ∀ k row, db'.ledger.get? k = some row → db.ledger.get? k = some row ∨
    ∃ i ∈ added, i.request.operationKey = k ∧ ∃ content, i.request.content = .ok content ∧
      row = insertedRow (env.sha256 content) i.record
  tombstones : ∀ k ∈ db.tombstones, k ∈ db'.tombstones
  taken : ∀ k, Taken env db k → Taken env db' k
  inserted : ∀ i ∈ added, Taken env db' i.request.operationKey
  fresh : ∀ i ∈ added, ¬ Taken env db i.request.operationKey
  distinct : (added.map fun i => i.request.operationKey).Nodup
  cursors : added.map (fun i => i.record.cursor) = List.range' (db.lastCursor + 1) added.length
  last : db'.lastCursor = db.lastCursor + added.length
  events : ∀ e ∈ db'.events, e ∈ db.events ∨ ∃ i ∈ added, i.record = eventRecord e
  operations : ∀ id row, db'.outbox.get? id = some row → db.outbox.get? id = some row
  takenIds : ∀ id, TakenId env db id → TakenId env db' id
  pendingRows : ∀ id row, db.outbox.get? id = some row → row.pending ≠ none →
    db'.outbox.get? id = some row
  held : ∀ k row id, db.ledger.get? k = some row → row.operationId = some id →
    isPending db id = true → db'.ledger.get? k = some row
  heldNew : ∀ i ∈ added, ∀ id, i.request.operationId = some id → isPending db id = true →
    ∃ row, db'.ledger.get? i.request.operationKey = some row ∧ row.operationId = some id
  pending : pendingEnvelopes db' = pendingEnvelopes db

/-- An edit of tables the dedupe does not read. -/
theorem Leaves.of_eq (hl : db'.ledger = db.ledger) (ht : db'.tombstones = db.tombstones)
    (hc : db'.lastCursor = db.lastCursor) (he : ∀ e ∈ db'.events, e ∈ db.events)
    (ho : db'.outbox = db.outbox) : Leaves env db [] db' where
  made i hi := by cases hi
  rows k row h := .inl (hl ▸ h)
  tombstones k h := ht.symm ▸ h
  taken k h := by
    unfold Taken at h ⊢
    rwa [hl, ht]
  inserted i hi := by cases hi
  fresh i hi := by cases hi
  distinct := List.nodup_nil
  cursors := rfl
  last := hc
  events e h := .inl (he e h)
  operations id row h := ho ▸ h
  takenIds id h := by
    unfold TakenId at h ⊢
    rwa [ho, ht]
  pendingRows id row h _ := ho.symm ▸ h
  held k row id h _ _ := hl.symm ▸ h
  heldNew i hi := by cases hi
  pending := by
    unfold pendingEnvelopes
    rw [ho]

theorem isPending_iff {id : String} :
    isPending db id = true ↔ ∃ row, db.outbox.get? id = some row ∧ row.pending ≠ none := by
  unfold isPending
  cases db.outbox.get? id with
  | none => simp
  | some row => simp [Option.isSome_iff_ne_none]

theorem Leaves.isPending (h : Leaves env db added db') {id : String}
    (hp : isPending db id = true) : isPending db' id = true := by
  obtain ⟨row, hrow, hne⟩ := isPending_iff.mp hp
  exact isPending_iff.mpr ⟨row, h.pendingRows id row hrow hne, hne⟩

theorem Leaves.trans {mid : Database} {first rest : List Insertion}
    (h : Leaves env db first mid) (k : Leaves env mid rest db') :
    Leaves env db (first ++ rest) db' where
  made i hi := by
    rcases List.mem_append.mp hi with hi | hi
    · exact h.made i hi
    · exact k.made i hi
  rows key row hrow := by
    rcases k.rows key row hrow with hmid | ⟨i, hi, hrest⟩
    · rcases h.rows key row hmid with hold | ⟨i, hi, hrest⟩
      · exact .inl hold
      · exact .inr ⟨i, List.mem_append_left _ hi, hrest⟩
    · exact .inr ⟨i, List.mem_append_right _ hi, hrest⟩
  tombstones key hkey := k.tombstones key (h.tombstones key hkey)
  taken key hkey := k.taken key (h.taken key hkey)
  inserted i hi := by
    rcases List.mem_append.mp hi with hi | hi
    · exact k.taken _ (h.inserted i hi)
    · exact k.inserted i hi
  fresh i hi := by
    rcases List.mem_append.mp hi with hi | hi
    · exact h.fresh i hi
    · exact fun ht => k.fresh i hi (h.taken _ ht)
  distinct := by
    rw [List.map_append]
    refine List.nodup_append.mpr ⟨h.distinct, k.distinct, ?_⟩
    rintro a ha b hb rfl
    obtain ⟨i, hi, rfl⟩ := List.mem_map.mp ha
    obtain ⟨j, hj, hsame⟩ := List.mem_map.mp hb
    exact k.fresh j hj (hsame ▸ h.inserted i hi)
  cursors := by
    rw [List.map_append, h.cursors, k.cursors, h.last, List.length_append]
    have hstart : db.lastCursor + first.length + 1 = db.lastCursor + 1 + first.length := by omega
    rw [hstart, ← List.range'_append_1]
  last := by
    rw [k.last, h.last, List.length_append]
    omega
  events e he := by
    rcases k.events e he with hmid | ⟨i, hi, hrest⟩
    · rcases h.events e hmid with hold | ⟨i, hi, hrest⟩
      · exact .inl hold
      · exact .inr ⟨i, List.mem_append_left _ hi, hrest⟩
    · exact .inr ⟨i, List.mem_append_right _ hi, hrest⟩
  operations id row hrow := h.operations id row (k.operations id row hrow)
  takenIds id hid := k.takenIds id (h.takenIds id hid)
  pendingRows id row hrow hp := k.pendingRows id row (h.pendingRows id row hrow hp) hp
  held key row id hrow hid hp :=
    k.held key row id (h.held key row id hrow hid hp) hid (h.isPending hp)
  heldNew i hi id hid hp := by
    rcases List.mem_append.mp hi with hi | hi
    · obtain ⟨row, hrow, hop⟩ := h.heldNew i hi id hid hp
      exact ⟨row, k.held _ row id hrow hop (h.isPending hp), hop⟩
    · exact k.heldNew i hi id hid (h.isPending hp)
  pending := k.pending.trans h.pending

theorem pendingEnvelopes_filter (d : Dict String OutboxRow) (p : String → OutboxRow → Bool)
    (h : ∀ id row, d.get? id = some row → p id row = false → row.pending = none) :
    (d.filter p).values.filterMap OutboxRow.pending = d.values.filterMap OutboxRow.pending := by
  have hall : ∀ e ∈ d.entries, p e.1 e.2 = false → e.2.pending = none := fun e he =>
    h e.1 e.2 ((Dict.get?_eq_some_iff _ _ _).mpr he)
  change ((d.entries.filter fun e => p e.1 e.2).map Prod.snd).filterMap OutboxRow.pending =
    (d.entries.map Prod.snd).filterMap OutboxRow.pending
  revert hall
  induction d.entries with
  | nil =>
    intro _
    rfl
  | cons e rest ih =>
    intro hall
    have hrest := ih fun e' he' => hall e' (List.mem_cons_of_mem e he')
    by_cases hp : p e.1 e.2 = true
    · simp only [List.filter_cons, hp, if_true, List.map_cons, List.filterMap_cons, hrest]
    have hnone := hall e List.mem_cons_self (by simpa using hp)
    simp only [List.filter_cons, hp, List.map_cons, List.filterMap_cons, hnone]
    exact hrest

theorem Edit.leaves (h : Edit env A db added db') : Leaves env db added db' := by
  cases h with
  | @insert request draws c admitted checked fresh unexpired free =>
    obtain ⟨hkey, hid, content, hcontent, hprint, hpayload⟩ := checkAppend_spec checked
    have hself : (insertEvent db c).ledger.get? request.operationKey =
        some (insertedRow (env.sha256 content) (eventRecord (newEvent db c))) := by
      rw [insertEvent_ledger, if_pos hkey.symm, hprint]
    refine ⟨?_, ?_, fun _ h => h, ?_, ?_, ?_, List.nodup_singleton _, rfl, rfl, ?_,
      fun _ _ h => h, fun _ h => h, fun _ _ h _ => h, ?_, ?_, rfl⟩
    · intro i hi
      rw [List.mem_singleton.mp hi]
      exact ⟨hpayload, hid⟩
    · intro k row hrow
      by_cases hk : k = request.operationKey
      · rw [hk, hself] at hrow
        cases hrow
        exact .inr ⟨_, List.mem_cons_self, hk.symm, content, hcontent, rfl⟩
      · rw [insertEvent_ledger, if_neg (hkey ▸ hk)] at hrow
        exact .inl hrow
    · rintro k (⟨row, hrow⟩ | ht)
      · left
        by_cases hk : k = request.operationKey
        · exact ⟨_, hk ▸ hself⟩
        · rw [insertEvent_ledger, if_neg (hkey ▸ hk)]
          exact ⟨row, hrow⟩
      · exact .inr ht
    · intro i hi
      rw [List.mem_singleton.mp hi]
      exact .inl ⟨_, hself⟩
    · intro i hi
      rw [List.mem_singleton.mp hi]
      rintro (⟨row, hrow⟩ | ht)
      · rw [← hkey, fresh] at hrow
        cases hrow
      · exact unexpired (hkey.symm ▸ ht)
    · intro e he
      rw [insertEvent_events] at he
      rcases List.mem_append.mp he with he | he
      · exact .inl he
      · rw [List.mem_singleton.mp he]
        exact .inr ⟨_, List.mem_cons_self, rfl⟩
    · intro k row id hrow _ _
      have hk : k ≠ c.operationKey := by
        rintro rfl
        rw [fresh] at hrow
        cases hrow
      rw [insertEvent_ledger, if_neg hk]
      exact hrow
    · intro i hi id hop _
      rw [List.mem_singleton.mp hi] at hop ⊢
      exact ⟨_, hself, hid.trans hop⟩
  | project => exact Leaves.of_eq rfl rfl rfl (fun _ h => h) rfl
  | evict => exact Leaves.of_eq rfl rfl rfl (fun _ h => List.mem_of_mem_filter h) rfl
  | prune pruned =>
    obtain ⟨tombstones, legacy, rfl, hold, hkeys, hids⟩ := prune_spec pruned
    refine ⟨?_, ?_, hold, ?_, ?_, ?_, List.nodup_nil, rfl, rfl, fun _ h => .inl h, ?_, ?_, ?_, ?_,
      ?_, ?_⟩
    · intro i hi
      cases hi
    · intro k row hrow
      exact .inl (prunedLedger_get?.mp hrow).1
    · rintro k (⟨row, hrow⟩ | ht)
      · by_cases hk : k ∈ expiredKeys env db
        · exact .inr (hkeys k hk)
        · exact .inl ⟨row, prunedLedger_get?.mpr ⟨hrow, hk⟩⟩
      · exact .inr (hold _ ht)
    · intro i hi
      cases hi
    · intro i hi
      cases hi
    · intro id row hrow
      exact (prunedOutbox_get?.mp hrow).1
    · rintro id (⟨row, hrow⟩ | ht)
      · by_cases hid : id ∈ expiredOperations env db
        · exact .inr (hids id hid)
        · exact .inl ⟨row, prunedOutbox_get?.mpr ⟨hrow, hid⟩⟩
      · exact .inr (hold _ ht)
    · intro id row hrow hp
      refine prunedOutbox_get?.mpr ⟨hrow, fun hid => ?_⟩
      obtain ⟨row', hrow', hp', _⟩ := expiredOperations_spec hid
      rw [hrow] at hrow'
      cases hrow'
      exact hp hp'
    · intro k row id hrow hop hp
      exact prunedLedger_get?.mpr ⟨hrow, not_mem_expiredKeys_of_pending hrow hop hp⟩
    · intro i hi
      cases hi
    · refine pendingEnvelopes_filter _ _ ?_
      intro id row hrow hdrop
      obtain ⟨row', hrow', hp', _⟩ := expiredOperations_spec
        (by simpa using hdrop)
      rw [hrow] at hrow'
      cases hrow'
      exact hp'

theorem Edits.leaves (h : Edits env A db added db') : Leaves env db added db' :=
  h.relates (fun _ => Leaves.of_eq rfl rfl rfl (fun _ h => h) rfl)
    (fun _ _ _ _ _ ha hb => ha.trans hb) (fun _ _ _ edit => edit.leaves)

theorem Edits.recorded (hi : Recorded db) (h : Edits env A db added db') : Recorded db' :=
  h.keeps (fun _ _ _ hi edit => edit.recorded hi) hi

end

end CodexBridge.Journal
