import CodexBridge.Journal.Outbox

/-! # What a transaction can do to the tables

Every transaction of the journal is a sequence of four kinds of edits: it inserts
an event with its ledger row, rewrites a projection, deletes events at or below a
floor it raises, or prunes dedupe metadata. What each edit keeps, every
transaction keeps.
-/

namespace CodexBridge.Journal

open Effect

/-- One edit and the event it inserts; `A` says which appends are made. -/
inductive Edit (env : Environment) (A : AppendRequest → Prop) :
    Database → List Insertion → Database → Prop where
  | insert {db : Database} {request : AppendRequest} {draws : Draws} {c : CheckedAppend}
      (admitted : A request) (checked : checkAppend env request draws = .ok c)
      (fresh : db.ledger.get? c.operationKey = none)
      (unexpired : eventTombstoneKey env c.operationKey ∉ db.tombstones)
      (free : collides db (newEvent db c) = false) :
      Edit env A db [⟨request, eventRecord (newEvent db c)⟩] (insertEvent db c)
  | project {db : Database} (transcript : Transcript) (lifecycle : Dict String LifecycleRow) :
      Edit env A db [] { db with transcript := transcript, lifecycle := lifecycle }
  | evict {db : Database} {scope : Scope} (kept : EventRow → Bool) (f : ScopeState → ScopeState)
      (sequence : (f (scopeState db scope)).nextSequence = (scopeState db scope).nextSequence)
      (raised : (scopeState db scope).minimumCursor ≤ (f (scopeState db scope)).minimumCursor)
      (below : ∀ e ∈ db.events, kept e = false →
        e.scope = scope ∧ e.cursor ≤ (f (scopeState db scope)).minimumCursor) :
      Edit env A db [] (setScope { db with events := db.events.filter kept } scope f)
  | prune {db db' : Database} (pruned : pruneOrphanedMetadata env db = .ok db') :
      Edit env A db [] db'

/-- The edits of a transaction in order, with all events they insert. -/
inductive Edits (env : Environment) (A : AppendRequest → Prop) :
    Database → List Insertion → Database → Prop where
  | nil {db : Database} : Edits env A db [] db
  | step {db mid db' : Database} {first rest : List Insertion} (edit : Edit env A db first mid)
      (more : Edits env A mid rest db') : Edits env A db (first ++ rest) db'

section

variable {env : Environment} {A B : AppendRequest → Prop} {db mid db' : Database}
  {first rest added : List Insertion}

theorem Edit.edits (h : Edit env A db added db') : Edits env A db added db' := by
  have hs := Edits.step h .nil
  rwa [List.append_nil] at hs

theorem Edits.trans (h : Edits env A db first mid) (k : Edits env A mid rest db') :
    Edits env A db (first ++ rest) db' := by
  induction h with
  | nil => exact k
  | step edit _ ih =>
    rw [List.append_assoc]
    exact Edits.step edit (ih k)

theorem Edits.keeps {I : Database → Prop}
    (hstep : ∀ db added db', I db → Edit env A db added db' → I db')
    (h : Edits env A db added db') (hi : I db) : I db' := by
  induction h with
  | nil => exact hi
  | step edit _ ih => exact ih (hstep _ _ _ hi edit)

theorem Edits.relates {R : Database → List Insertion → Database → Prop} (hrefl : ∀ db, R db [] db)
    (htrans : ∀ db a mid b db', R db a mid → R mid b db' → R db (a ++ b) db')
    (hstep : ∀ db a db', Edit env A db a db' → R db a db') (h : Edits env A db added db') :
    R db added db' := by
  induction h with
  | nil => exact hrefl _
  | step edit _ ih => exact htrans _ _ _ _ _ (hstep _ _ _ edit) ih

theorem Edits.admitted (h : Edits env A db added db') : ∀ i ∈ added, A i.request := by
  refine h.relates (R := fun _ added _ => ∀ i ∈ added, A i.request) ?_ ?_ ?_
  · intro _ i hi
    cases hi
  · intro _ a _ b _ ha hb i hi
    rcases List.mem_append.mp hi with hi | hi
    · exact ha i hi
    · exact hb i hi
  · intro _ a _ edit i hi
    cases edit with
    | insert admitted =>
      rw [List.mem_singleton.mp hi]
      exact admitted
    | project => cases hi
    | evict => cases hi
    | prune => cases hi

end

/-! ## Pruning -/

section

variable {env : Environment} {db db' : Database}

theorem addTombstones_spec {keys : List String} (h : addTombstones env db keys = .ok db') :
    ∃ tombstones, db' = { db with tombstones := tombstones } ∧
      (∀ k ∈ db.tombstones, k ∈ tombstones) ∧ ∀ k ∈ keys, k ∈ tombstones := by
  unfold addTombstones at h
  simp only at h
  have hknown : ∀ k ∈ keys, k ∈ db.tombstones ++ keys.filter fun k => k ∉ db.tombstones := by
    intro k hk
    by_cases hm : k ∈ db.tombstones
    · exact List.mem_append_left _ hm
    · exact List.mem_append_right _ (List.mem_filter.mpr ⟨hk, by simpa using hm⟩)
  split at h
  · rename_i hempty
    cases h
    refine ⟨db.tombstones, rfl, fun k hk => hk, ?_⟩
    intro k hk
    have hm := hknown k hk
    rwa [List.isEmpty_iff.mp hempty, List.append_nil] at hm
  · obtain ⟨_, _, h⟩ := except_bind_eq_ok.mp h
    split at h
    · cases h
      exact ⟨_, rfl, fun k hk => List.mem_append_left _ hk, hknown⟩
    · cases h

def expiredKeys (env : Environment) (db : Database) : List String :=
  keysToExpire env.maxOrphanedMetadataRows (orphanGroups (orphanRows db)).values

def prunedLedger (env : Environment) (db : Database) : Dict String LedgerRow :=
  db.ledger.filter fun k _ => k ∉ expiredKeys env db

def expiredOperations (env : Environment) (db : Database) : List String :=
  operationsToExpire env { db with ledger := prunedLedger env db }

theorem prune_spec (h : pruneOrphanedMetadata env db = .ok db') :
    ∃ tombstones legacyImports,
      db' = { db with
        ledger := prunedLedger env db
        outbox := db.outbox.filter fun k _ => k ∉ expiredOperations env db
        tombstones := tombstones
        legacyImports := legacyImports } ∧
      (∀ k ∈ db.tombstones, k ∈ tombstones) ∧
      (∀ k ∈ expiredKeys env db, eventTombstoneKey env k ∈ tombstones) ∧
      ∀ id ∈ expiredOperations env db, outboxTombstoneKey env id ∈ tombstones := by
  unfold pruneOrphanedMetadata at h
  obtain ⟨mid, hmid, h⟩ := except_bind_eq_ok.mp h
  unfold pruneLedger at hmid
  obtain ⟨marked, hmark, hmid⟩ := except_bind_eq_ok.mp hmid
  obtain ⟨first, rfl, hkeep, hkeys⟩ := addTombstones_spec hmark
  cases hmid
  unfold pruneOperations at h
  obtain ⟨marked, hmark', h⟩ := except_bind_eq_ok.mp h
  obtain ⟨second, rfl, hkeep', hids⟩ := addTombstones_spec hmark'
  cases h
  refine ⟨second, _, rfl, fun k hk => hkeep' k (hkeep k hk), ?_, ?_⟩
  · intro k hk
    exact hkeep' _ (hkeys _ (List.mem_map_of_mem hk))
  · intro id hid
    exact hids _ (List.mem_map_of_mem hid)

end

section

variable {env : Environment} {A : AppendRequest → Prop} {db db' : Database}

theorem projectTranscript_edit {threadId : String} {row : EventRow}
    (h : projectTranscript env db threadId row = .ok db') :
    ∃ transcript, db' = { db with transcript := transcript } := by
  unfold projectTranscript at h
  obtain ⟨sequence, _, h⟩ := except_bind_eq_ok.mp h
  cases sequence with
  | none =>
    cases h
    exact ⟨db.transcript, rfl⟩
  | some sequence =>
    simp only at h
    split at h
    · cases h
      exact ⟨_, rfl⟩
    rw [refuse_bind_eq_ok] at h
    obtain ⟨_, h⟩ := h
    split at h
    · split at h
      · cases h
        exact ⟨_, rfl⟩
      · cases h
        exact ⟨_, rfl⟩
    · cases h
      exact ⟨_, rfl⟩

theorem projectLifecycle_edit (db : Database) (threadId : String) (row : EventRow) :
    ∃ lifecycle, projectLifecycle db threadId row = { db with lifecycle := lifecycle } := by
  unfold projectLifecycle
  split
  · simp only
    split
    · split
      · exact ⟨_, rfl⟩
      · exact ⟨db.lifecycle, rfl⟩
    · exact ⟨_, rfl⟩
  · exact ⟨db.lifecycle, rfl⟩

theorem projectEvent_edit {row : EventRow} (h : projectEvent env db row = .ok db') :
    Edit env A db [] db' := by
  unfold projectEvent at h
  split at h
  · rename_i threadId _
    obtain ⟨lifecycle, hl⟩ := projectLifecycle_edit db threadId row
    rw [hl] at h
    obtain ⟨transcript, rfl⟩ := projectTranscript_edit h
    exact Edit.project transcript lifecycle
  · cases h
    exact Edit.project db.transcript db.lifecycle

theorem deleteThrough_edit (db : Database) (scope : Scope) (through snapshot count bytes : Nat) :
    Edit env A db [] (setScope (deleteThrough db scope through) scope fun s =>
      { s with
        minimumCursor := max s.minimumCursor through
        snapshotCursor := max s.snapshotCursor snapshot
        retainedCount := s.retainedCount - count
        retainedBytes := s.retainedBytes - bytes }) := by
  apply Edit.evict (fun e => !(e.scope = scope && e.cursor ≤ through))
  · rfl
  · exact le_max_left _ _
  · intro e _ hd
    have hk : e.scope = scope ∧ e.cursor ≤ through := by simpa using hd
    exact ⟨hk.1, le_trans hk.2 (le_max_right _ _)⟩

theorem enforceScopeRetention_edits (env : Environment) (A : AppendRequest → Prop) (db : Database)
    (scope : Scope) (snapshot maxCount maxBytes : Nat) :
    Edits env A db [] (enforceScopeRetention db scope snapshot maxCount maxBytes).1 := by
  unfold enforceScopeRetention
  simp only
  split
  · exact .nil
  split
  · exact .nil
  · exact (deleteThrough_edit db scope _ snapshot _ _).edits

theorem retain_edits {row : EventRow} (h : retain env db row = .ok db') :
    Edits env A db [] db' := by
  unfold retain at h
  simp only at h
  have hkept := enforceScopeRetention_edits env A db row.scope row.cursor
    (retentionLimits env row.scope).1 (retentionLimits env row.scope).2
  split at h
  · exact hkept.trans (Edit.prune h).edits
  · cases h
    exact hkept

theorem append_cases {request : AppendRequest} {draws : Draws} {record : Record}
    {inserted : Bool} (ha : A request)
    (h : append env db request draws = .ok (record, inserted, db')) :
    ∃ c, checkAppend env request draws = .ok c ∧
      ((∃ row, db.ledger.get? c.operationKey = some row ∧ row.fingerprint = c.fingerprint ∧
          record = ledgerRecord row c.payload ∧ inserted = false ∧ db' = db) ∨
        (db.ledger.get? c.operationKey = none ∧ record = eventRecord (newEvent db c) ∧
          inserted = true ∧ Edits env A db [⟨request, record⟩] db')) := by
  unfold append at h
  obtain ⟨c, hc, h⟩ := except_bind_eq_ok.mp h
  refine ⟨c, hc, ?_⟩
  unfold appendChecked at h
  cases hl : db.ledger.get? c.operationKey with
  | some row =>
    simp only [hl] at h
    split at h
    · rename_i hf
      cases h
      exact .inl ⟨row, rfl, hf, rfl, rfl, rfl⟩
    · cases h
  | none =>
    simp only [hl, refuse_bind_eq_ok] at h
    obtain ⟨unexpired, _, _, free, h⟩ := h
    obtain ⟨projected, hp, h⟩ := except_bind_eq_ok.mp h
    obtain ⟨kept, hk, h⟩ := except_bind_eq_ok.mp h
    cases h
    have hi : Edit env A db [⟨request, eventRecord (newEvent db c)⟩] (insertEvent db c) :=
      Edit.insert ha hc hl unexpired (by simpa using free)
    have hrest := (projectEvent_edit (A := A) hp).edits.trans (retain_edits hk)
    exact .inr ⟨rfl, rfl, rfl, hi.edits.trans hrest⟩

theorem append_edits {request : AppendRequest} {draws : Draws} {record : Record}
    {inserted : Bool} (ha : A request)
    (h : append env db request draws = .ok (record, inserted, db')) :
    Edits env A db (if inserted then [⟨request, record⟩] else []) db' := by
  obtain ⟨c, _, ⟨_, _, _, _, rfl, rfl⟩ | ⟨_, _, rfl, he⟩⟩ := append_cases ha h
  · exact .nil
  · exact he

theorem compact_edits {scope : String} {through snapshot : Nat} {threadId : Option String}
    {result : CompactionResult}
    (h : compact env db scope through snapshot threadId = .ok (result, db')) :
    Edits env A db [] db' := by
  unfold compact at h
  obtain ⟨normalized, _, h⟩ := except_bind_eq_ok.mp h
  rw [refuse_bind_eq_ok] at h
  obtain ⟨_, h⟩ := h
  obtain ⟨pruned, hp, h⟩ := except_bind_eq_ok.mp h
  cases h
  exact (deleteThrough_edit db normalized through snapshot _ _).edits.trans (Edit.prune hp).edits

theorem le_foldl_max (xs : List Nat) (a : Nat) :
    a ≤ xs.foldl max a ∧ ∀ x ∈ xs, x ≤ xs.foldl max a := by
  induction xs generalizing a with
  | nil => exact ⟨le_rfl, fun x hx => by cases hx⟩
  | cons y ys ih =>
    obtain ⟨hacc, hall⟩ := ih (max a y)
    refine ⟨le_trans (le_max_left a y) hacc, ?_⟩
    intro x hx
    rcases List.mem_cons.mp hx with rfl | hx
    · exact le_trans (le_max_right a x) hacc
    · exact hall x hx

theorem dropScope_edit (env : Environment) (A : AppendRequest → Prop) (db : Database)
    (scope : Scope) (through snapshot : Nat)
    (hall : ∀ e ∈ db.events, e.scope = scope → e.cursor ≤ through) :
    Edit env A db [] (setScope { db with events := db.events.filter fun e => e.scope ≠ scope } scope
      fun s =>
        { s with
          minimumCursor := max s.minimumCursor through
          snapshotCursor := max s.snapshotCursor snapshot
          retainedCount := 0
          retainedBytes := 0 }) := by
  apply Edit.evict (fun e => decide (e.scope ≠ scope))
  · rfl
  · exact le_max_left _ _
  · intro e he hd
    have hs : e.scope = scope := by simpa using hd
    exact ⟨hs, le_trans (hall e he hs) (le_max_right _ _)⟩

theorem purgeThread_edits {threadId : String} {result : CompactionResult}
    (h : purgeThread env db threadId = .ok (result, db')) : Edits env A db [] db' := by
  unfold purgeThread at h
  obtain ⟨scope, _, h⟩ := except_bind_eq_ok.mp h
  obtain ⟨pruned, hp, h⟩ := except_bind_eq_ok.mp h
  cases h
  have hall : ∀ e ∈ db.events, e.scope = scope → e.cursor ≤ max (scopeState db scope).minimumCursor
      (((db.events.filter fun e => e.scope = scope).map EventRow.cursor).foldl max 0) := by
    intro e he hs
    have hm : e ∈ db.events.filter fun e => e.scope = scope :=
      List.mem_filter.mpr ⟨he, by simpa using hs⟩
    have hc := (le_foldl_max _ 0).2 _ (List.mem_map_of_mem (f := EventRow.cursor) hm)
    exact le_trans hc (le_max_right _ _)
  have hproject : Edit env A db [] { db with
      transcript := db.transcript.dropThread threadId
      lifecycle := db.lifecycle.erase threadId } := Edit.project _ _
  have hdrop := dropScope_edit env A { db with
    transcript := db.transcript.dropThread threadId
    lifecycle := db.lifecycle.erase threadId } scope _ (max (scopeState db scope).snapshotCursor
    (max (scopeState db scope).minimumCursor
      (((db.events.filter fun e => e.scope = scope).map EventRow.cursor).foldl max 0))) hall
  exact hproject.edits.trans (hdrop.edits.trans (Edit.prune hp).edits)

theorem appendEvents_edits {operationId : String} {isFull : String → Bool}
    {events : List EnvelopeEvent} {results : List (Record × Bool)}
    (ha : ∀ e ∈ events, A (eventRequest operationId e))
    (h : appendEvents env operationId isFull events db = .ok (results, db')) :
    Edits env A db (insertionsOf operationId events results) db' := by
  induction events generalizing db results with
  | nil =>
    cases h
    exact .nil
  | cons event rest ih =>
    unfold appendEvents at h
    obtain ⟨⟨record, inserted, next⟩, hfirst, h⟩ := except_bind_eq_ok.mp h
    obtain ⟨⟨records, last⟩, hrest, h⟩ := except_bind_eq_ok.mp h
    cases h
    have hhead := append_edits (ha event List.mem_cons_self) hfirst
    have htail := ih (fun e he => ha e (List.mem_cons_of_mem event he)) hrest
    have hboth := hhead.trans htail
    cases inserted with
    | true => exact hboth
    | false => exact hboth

end

theorem prepare_spec {env : Environment} {db db' : Database} {fingerprint : String}
    {envelope : Envelope} {full : Bool} {preparation : Preparation}
    (h : prepare env db fingerprint envelope full = .ok (preparation, db')) :
    (∃ row, db.outbox.get? envelope.operationId = some row ∧ row.fingerprint = fingerprint ∧
        db' = db ∧ preparation = match row.pending with
          | some earlier => .resumed earlier
          | none => .applied) ∨
      (db.outbox.get? envelope.operationId = none ∧ preparation = .admitted ∧
        outboxTombstoneKey env envelope.operationId ∉ db.tombstones ∧
        db' = insertPending db fingerprint envelope) := by
  unfold prepare at h
  cases hr : db.outbox.get? envelope.operationId with
  | some row =>
    simp only [hr] at h
    split at h
    · rename_i hf
      cases h
      exact .inl ⟨row, rfl, hf, rfl, rfl⟩
    · cases h
  | none =>
    simp only [hr] at h
    cases ha : admitOperation env db fingerprint envelope full with
    | error e =>
      rw [ha] at h
      cases e <;> cases h
    | ok next =>
      rw [ha] at h
      cases h
      unfold admitOperation at ha
      simp only [refuse_bind_eq_ok] at ha
      obtain ⟨hid, _, ha⟩ := ha
      obtain ⟨_, _, ha⟩ := except_bind_eq_ok.mp ha
      rw [refuse_bind_eq_ok] at ha
      obtain ⟨_, ha⟩ := ha
      cases ha
      exact .inr ⟨rfl, rfl, hid, rfl⟩

theorem finalize_spec {env : Environment} {isFull : String → Bool} {db db' : Database}
    {envelope : Envelope} {results : List (Record × Bool)}
    (h : finalize env isFull db envelope = .ok (results, db')) :
    ∃ appended, db.outbox.contains envelope.operationId = true ∧
      appendEvents env envelope.operationId isFull envelope.events db = .ok (results, appended) ∧
      pruneOrphanedMetadata env (markApplied appended envelope.operationId) = .ok db' := by
  unfold finalize at h
  rw [refuse_bind_eq_ok] at h
  obtain ⟨hc, h⟩ := h
  obtain ⟨⟨records, appended⟩, ha, h⟩ := except_bind_eq_ok.mp h
  obtain ⟨pruned, hp, h⟩ := except_bind_eq_ok.mp h
  cases h
  exact ⟨appended, by simpa using hc, ha, hp⟩

end CodexBridge.Journal
