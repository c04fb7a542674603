import CodexBridge.Journal.Durable
import CodexBridge.Journal.Digests

/-! # Retries

A key or an operation id that was used once stays known: by a ledger row, by an outbox
row or by a tombstone. Retries are answered from what is known, and insert nothing.
-/

namespace CodexBridge.Journal

open Effect

/-! ## Retiring ledger rows -/

def Together (db db' : Database) : Prop :=
  ∀ k k' row row' id, db.ledger.get? k = some row → row.operationId = some id →
    db.ledger.get? k' = some row' → row'.operationId = some id →
      db'.ledger.get? k = none → db'.ledger.get? k' = none

structure Retires (env : Environment) (db db' : Database) : Prop where
  taken : ∀ k, Taken env db k → Taken env db' k
  rows : ∀ k row, db'.ledger.get? k = some row → Taken env db k → db.ledger.get? k = some row
  together : Together db db'

section

variable {env : Environment} {A : AppendRequest → Prop} {db mid db' : Database}
  {added : List Insertion}

theorem Retires.of_ledger (hl : db'.ledger = db.ledger) (ht : db'.tombstones = db.tombstones) :
    Retires env db db' := by
  refine ⟨?_, ?_, ?_⟩
  · intro k hk
    unfold Taken at hk ⊢
    rwa [hl, ht]
  · intro k row hrow _
    rwa [hl] at hrow
  · intro k k' row row' id hrow _ _ _ hgone
    rw [hl, hrow] at hgone
    cases hgone

theorem Retires.trans (h : Retires env db mid) (k : Retires env mid db') : Retires env db db' := by
  have hstay : ∀ key row, db.ledger.get? key = some row → ∀ row', mid.ledger.get? key = some row' →
      row' = row := by
    intro key row hrow row' hmid
    have hback := h.rows key row' hmid (.inl ⟨row, hrow⟩)
    rw [hrow] at hback
    exact (Option.some.inj hback).symm
  refine ⟨fun key hk => k.taken key (h.taken key hk), ?_, ?_⟩
  · intro key row hrow hk
    exact h.rows key row (k.rows key row hrow (h.taken key hk)) hk
  intro a b row row' id ha hida hb hidb hgone
  cases hma : mid.ledger.get? a with
  | none =>
    have hmb := h.together a b row row' id ha hida hb hidb hma
    cases hlast : db'.ledger.get? b with
    | none => rfl
    | some r =>
      have hback := k.rows b r hlast (h.taken b (.inl ⟨row', hb⟩))
      rw [hmb] at hback
      cases hback
  | some ra =>
    cases hmb : mid.ledger.get? b with
    | none =>
      rw [h.together b a row' row id hb hidb ha hida hmb] at hma
      cases hma
    | some rb =>
      rw [← hstay a row ha ra hma] at hida
      rw [← hstay b row' hb rb hmb] at hidb
      exact k.together a b ra rb id hma hida hmb hidb hgone

theorem Edit.retires (hr : Recorded db) (h : Edit env A db added db') : Retires env db db' := by
  have hleaves := h.leaves
  refine ⟨hleaves.taken, ?_, ?_⟩
  · intro k row hrow hk
    rcases hleaves.rows k row hrow with hold | ⟨i, hi, rfl, _⟩
    · exact hold
    · exact absurd hk (hleaves.fresh i hi)
  intro k k' row row' id hrow hid hrow' hid' hgone
  cases h with
  | insert admitted checked fresh unexpired free =>
    rw [insertEvent_ledger] at hgone
    split at hgone
    · cases hgone
    · rw [hrow] at hgone
      cases hgone
  | project transcript lifecycle =>
    change db.ledger.get? k = none at hgone
    rw [hrow] at hgone
    cases hgone
  | evict kept f sequence raised below =>
    change db.ledger.get? k = none at hgone
    rw [hrow] at hgone
    cases hgone
  | prune pruned =>
    obtain ⟨tombstones, legacy, rfl, _⟩ := prune_spec pruned
    change (prunedLedger env db).get? k = none at hgone
    change (prunedLedger env db).get? k' = none
    have hexpired : k ∈ expiredKeys env db := by
      by_contra hkept
      rw [prunedLedger_get?.mpr ⟨hrow, hkept⟩] at hgone
      cases hgone
    have hall := pruned_all_or_none hr hrow hid hrow' hid' hexpired
    cases hk : (prunedLedger env db).get? k' with
    | none => rfl
    | some r => exact absurd hall (prunedLedger_get?.mp hk).2

theorem Edits.retires (hr : Recorded db) (h : Edits env A db added db') : Retires env db db' := by
  induction h with
  | nil => exact Retires.of_ledger rfl rfl
  | step edit _ ih => exact (edit.retires hr).trans (ih (edit.recorded hr))

end

/-- A property of the component that depends on the tables and the histories only, and
that the transactions of the outbox keep. -/
structure Settles (env : Environment) (I : Outbox → Prop) : Prop where
  outside : ∀ s files reconciled failure, I s →
    I { s with files := files, reconciled := reconciled, failure := failure }
  finalize : ∀ s isFull e results db, I s → Journal.finalize env isFull s.db e = .ok (results, db) →
    I { s with
        db := db
        journaled := s.journaled ++ insertionsOf e.operationId e.events results }

section

variable {env : Environment} {I : Outbox → Prop} {isFull : String → Bool}

section

variable (h : Settles env I)

include h

theorem Settles.point : Keeps I point :=
  triple_point fun s failure hs => h.outside s s.files s.reconciled failure hs

theorem Settles.applyWrites (e : Envelope) : Keeps I (applyWrites e) := by
  refine Triple.bind (triple_examineWrites
    (fun s failure hs => h.outside s s.files s.reconciled failure hs) _ _)
    fun pending => Triple.of_pure fun _ => ?_
  refine Keeps.bind h.point fun _ => Keeps.bind ?_ fun _ => ?_
  · refine Keeps.forEach fun w _ => Keeps.bind ?_ fun _ => h.point
    exact Keeps.modify fun s hs => h.outside s _ s.reconciled s.failure hs
  · refine Keeps.forEach fun w _ => Keeps.bind h.point fun _ => Keeps.bind Keeps.read fun _ => ?_
    exact Keeps.require

theorem Settles.finalizeOperation (e : Envelope) :
    Keeps I (finalizeOperation env isFull e) := by
  refine Triple.bind (Q := fun results s => I
    { s with journaled := s.journaled ++ insertionsOf e.operationId e.events results })
    (triple_transact (fun s results db hs hf => ?_) fun s _ hs _ => hs) fun results => ?_
  · exact h.finalize s isFull e results db hs hf
  · exact Triple.bind (Triple.modify fun s hs => hs) fun _ => Triple.pure fun s hs => hs

theorem Settles.reconcileRows (n : Nat) :
    Keeps I (reconcileRows env isFull n) := by
  have hflag : Keeps I (modify fun s => { s with reconciled := true } :
      Action Outbox JournalError Unit) :=
    Keeps.modify fun s hs => h.outside s s.files true s.failure hs
  induction n with
  | zero => exact Keeps.bind hflag fun _ => Keeps.pure
  | succ n ih =>
    refine Keeps.bind Keeps.read fun envelope => ?_
    cases envelope with
    | none => exact Keeps.bind hflag fun _ => Keeps.pure
    | some e =>
      refine Keeps.bind (h.applyWrites e) fun _ => Keeps.bind h.point fun _ => ?_
      refine Keeps.bind (h.finalizeOperation e) fun _ => Keeps.bind h.point fun _ => ?_
      exact Keeps.bind ih fun _ => Keeps.pure

theorem Settles.reconcile : Keeps I (Journal.reconcile env isFull) := by
  refine Keeps.bind ?_ fun _ => Keeps.bind Keeps.read fun n => h.reconcileRows n
  exact Keeps.modify fun s hs => h.outside s s.files false s.failure hs

theorem Settles.ensureReconciled : Keeps I (ensureReconciled env isFull) := by
  refine Keeps.bind Keeps.read fun flag => ?_
  cases flag with
  | true => exact Keeps.pure
  | false => exact Keeps.bind h.reconcile fun _ => Keeps.pure

theorem Settles.publish (e : Envelope) : Keeps I (publish env isFull e) := by
  refine Keeps.bind (Keeps.modify fun s hs => h.outside s s.files false s.failure hs) fun _ => ?_
  refine Keeps.bind h.point fun _ => Keeps.bind (h.applyWrites e) fun _ => ?_
  refine Keeps.bind h.point fun _ => Keeps.bind (h.finalizeOperation e) fun records => ?_
  refine Keeps.bind h.point fun _ => Keeps.bind ?_ fun _ => Keeps.pure
  exact Keeps.modify fun s hs => h.outside s s.files true s.failure hs

end

end

/-- A property that every transaction keeps. -/
structure Closed (env : Environment) (I : Outbox → Prop) : Prop extends Settles env I where
  edits : ∀ s A added db, I s → Edits env A s.db added db →
    I { s with db := db, journaled := s.journaled ++ added }
  prepare : ∀ s fingerprint e, I s → s.db.outbox.get? e.operationId = none →
    outboxTombstoneKey env e.operationId ∉ s.db.tombstones →
    I { s with
        db := insertPending s.db fingerprint e
        prepared := s.prepared ++ [e] }

section

variable {env : Environment} {I : Outbox → Prop}

section

variable (h : Closed env I)

include h

theorem Closed.prepareOperation (isFull : String → Bool) (fingerprint : String)
    (e : Envelope) : Keeps I (prepareOperation env isFull fingerprint e) := by
  refine Triple.bind (Q := fun preparation s => I
    { s with prepared := s.prepared ++ if preparation = .admitted then [e] else [] })
    (triple_transact (fun s preparation db hs hp => ?_) fun s _ hs _ => hs) fun preparation => ?_
  · rcases prepare_spec hp with ⟨row, _, _, rfl, rfl⟩ | ⟨hnone, rfl, htombstone, rfl⟩
    · cases row.pending with
      | none => simpa using hs
      | some earlier => simpa using hs
    · simpa using h.prepare s fingerprint e hs hnone htombstone
  · exact Triple.bind (Triple.modify fun s hs => hs) fun _ => Triple.pure fun s hs => hs

theorem Closed.commitOperation (operation : Operation) (draws : CommitDraws) :
    Keeps I (commitOperation env operation draws) := by
  refine Keeps.bind h.toSettles.ensureReconciled fun _ => Keeps.bind Keeps.lift fun checked => ?_
  obtain ⟨fingerprint, e⟩ := checked
  refine Keeps.bind (h.prepareOperation draws.isFull fingerprint e) fun preparation => ?_
  cases preparation with
  | applied => exact Keeps.bind Keeps.read fun _ => Keeps.lift
  | resumed earlier => exact h.toSettles.publish earlier
  | admitted => exact h.toSettles.publish e

theorem Closed.keepsEdits : KeepsEdits env (fun _ => True) I :=
  fun s added db hs hedits => h.edits s _ added db hs hedits

theorem Closed.perform {s : Outbox} (call : Call) (hs : I s) :
    I (s.perform env call) := by
  have hfailure : ∀ failure, I { s with failure := failure } := fun failure =>
    h.outside s s.files s.reconciled failure hs
  cases call with
  | append request draws => exact h.keepsEdits.append trivial draws hs
  | compact scope through snapshot threadId => exact h.keepsEdits.compact hs
  | purge threadId => exact h.keepsEdits.purge hs
  | commit operation draws failure =>
    exact (h.commitOperation operation draws).state (hfailure failure)
  | reconcile isFull failure => exact h.toSettles.reconcile.state (hfailure failure)
  | restart => exact h.outside s s.files false s.failure hs

theorem Closed.run {s : Outbox} (calls : List Call) (hs : I s) :
    I (s.run env calls) :=
  Outbox.run_invariant (C := fun _ => True) (fun _ call _ hs => h.perform call hs) hs
    fun _ _ => trivial

end

end

/-- The tables know all that was journaled, and retire rows since `start` as they may. -/
structure Chronicle (env : Environment) (start : Database) (s : Outbox) : Prop where
  recorded : Recorded s.db
  history : History env s.journaled s.db
  retires : Retires env start s.db

theorem Chronicle.closed (env : Environment) (start : Database) :
    Closed env (Chronicle env start) where
  outside s files reconciled failure h := ⟨h.recorded, h.history, h.retires⟩
  finalize s isFull e results db h hf := by
    obtain ⟨appended, _, happend, hprune⟩ := finalize_spec hf
    have hedits := appendEvents_edits (A := fun _ => True) (fun _ _ => trivial) happend
    have hrecorded := hedits.recorded h.recorded
    have hmarked : Recorded (markApplied appended e.operationId) := hrecorded
    have hprunes := Edit.prune (A := fun _ => True) hprune
    refine ⟨hprunes.recorded hmarked, h.history.finalize hf, ?_⟩
    have happended := h.retires.trans (hedits.retires h.recorded)
    have hmarking : Retires env appended (markApplied appended e.operationId) :=
      Retires.of_ledger rfl rfl
    exact (happended.trans hmarking).trans (hprunes.retires hmarked)
  edits s A added db h he :=
    ⟨he.recorded h.recorded, h.history.leaves he.leaves, h.retires.trans (he.retires h.recorded)⟩
  prepare s fingerprint e h _ _ :=
    ⟨h.recorded, h.history.of_eq rfl rfl rfl rfl, h.retires.trans (Retires.of_ledger rfl rfl)⟩

structure Stamped (env : Environment) (id fingerprint : String) (s : Outbox) : Prop where
  taken : TakenId env s.db id
  row : ∀ row, s.db.outbox.get? id = some row → row.fingerprint = fingerprint

variable {env : Environment}

theorem Stamped.leaves {id fingerprint : String} {s : Outbox}
    {added : List Insertion} {db : Database} (h : Stamped env id fingerprint s)
    (hl : Leaves env s.db added db) (journaled : List Insertion) :
    Stamped env id fingerprint { s with db := db, journaled := journaled } :=
  ⟨hl.takenIds id h.taken, fun row hrow => h.row row (hl.operations id row hrow)⟩

theorem Stamped.closed (env : Environment) (id fingerprint : String) :
    Closed env (Stamped env id fingerprint) where
  outside s files reconciled failure h := ⟨h.taken, h.row⟩
  finalize s isFull e results db h hf := by
    obtain ⟨appended, hfirst, hlast⟩ := finalize_leaves hf
    have hmid := h.leaves hfirst s.journaled
    have hmarked : Stamped env id fingerprint
        { s with db := markApplied appended e.operationId } := by
      refine ⟨?_, ?_⟩
      · rcases hmid.taken with ⟨row, hrow⟩ | htombstone
        · by_cases hid : id = e.operationId
          · refine .inl ⟨{ row with pending := none }, ?_⟩
            change (markApplied appended e.operationId).outbox.get? id = _
            rw [markApplied_get?, if_pos hid]
            exact congrArg (Option.map _) hrow
          · refine .inl ⟨row, ?_⟩
            change (markApplied appended e.operationId).outbox.get? id = _
            rw [markApplied_get?, if_neg hid]
            exact hrow
        · exact .inr htombstone
      · intro row hrow
        change (markApplied appended e.operationId).outbox.get? id = _ at hrow
        rw [markApplied_get?] at hrow
        split at hrow
        · obtain ⟨old, hold, rfl⟩ := Option.map_eq_some_iff.mp hrow
          exact hmid.row old hold
        · exact hmid.row row hrow
    exact hmarked.leaves hlast _
  edits s A added db h he := h.leaves he.leaves _
  prepare s fingerprint' e h hnone htombstone := by
    have hother : id ≠ e.operationId := by
      rintro rfl
      rcases h.taken with ⟨row, hrow⟩ | ht
      · rw [hnone] at hrow
        cases hrow
      · exact htombstone ht
    refine ⟨?_, ?_⟩
    · rcases h.taken with ⟨row, hrow⟩ | ht
      · refine .inl ⟨row, ?_⟩
        rw [insertPending_get?, if_neg hother]
        exact hrow
      · exact .inr ht
    · intro row hrow
      change (insertPending s.db fingerprint' e).outbox.get? id = _ at hrow
      rw [insertPending_get?, if_neg hother] at hrow
      exact h.row row hrow

def Record.place (r : Record) : Nat × String × Nat × String :=
  (r.cursor, r.eventId, r.scopeSequence, r.timestamp)

/-- The records are those of the events the operation journaled, all of them. -/
def Complete (journaled : List Insertion) (e : Envelope) (records : List Record) : Prop :=
  ∃ block : List Insertion, (∀ i ∈ block, i ∈ journaled) ∧
    block.map Insertion.request = requestsOf e ∧
      records.map Record.place = block.map fun i => i.record.place

def expiredOperation : JournalError :=
  .keyExpired "The durable operation id has expired from dedupe retention."

/-- A retry of an operation returns all its records, finds it expired, or fails where the
reconciliation it starts with fails. -/
def Answered (env : Environment) (s : Outbox) (e : Envelope) (isFull : String → Bool) :
    Except JournalError (List Record) × Outbox → Prop
  | (.ok records, t) => Complete t.journaled e records
  | (.error error, _) =>
    error = expiredOperation ∨ (ensureReconciled env isFull s).1 = .error error

theorem appliedRecords_complete {db : Database} {id : String} {block : List Insertion}
    {events : List EnvelopeEvent} {index : Nat} (hlength : events.length = block.length)
    (hkeys : (block.map fun i => i.request.operationKey) =
      (List.range' index block.length).map (outboxKey id)) (hrows : ∀ i ∈ block, ∃ fingerprint,
      db.ledger.get? i.request.operationKey = some (insertedRow fingerprint i.record)) :
    ∃ records, appliedRecords db id index events = .ok records ∧
      records.map Record.place = block.map fun i => i.record.place := by
  induction block generalizing events index with
  | nil =>
    have hnil : events = [] := List.length_eq_zero_iff.mp hlength
    rw [hnil]
    exact ⟨[], rfl, rfl⟩
  | cons i rest ih =>
    cases events with
    | nil => cases hlength
    | cons event more =>
      rw [List.map_cons, List.length_cons, List.range'_succ, List.map_cons] at hkeys
      obtain ⟨hkey, hkeys⟩ := List.cons.inj hkeys
      obtain ⟨fingerprint, hrow⟩ := hrows i List.mem_cons_self
      obtain ⟨records, hrecords, hplaces⟩ := ih (Nat.succ.inj hlength)
        hkeys fun j hj => hrows j (List.mem_cons_of_mem i hj)
      refine ⟨ledgerRecord (insertedRow fingerprint i.record) event.payload :: records, ?_, ?_⟩
      · unfold appliedRecords
        rw [← hkey, hrow]
        simp only
        rw [hrecords]
        rfl
      · rw [List.map_cons, List.map_cons, hplaces]
        rfl

section

variable {env : Environment} {initial : Dict String StateFile} {finished : List Envelope}
  {s : Outbox} {e envelope : Envelope} {fingerprint : String}

theorem length_of_prints (hinj : Function.Injective env.sha256) (h : Prints env fingerprint e)
    (h' : Prints env fingerprint envelope) : envelope.events.length = e.events.length := by
  obtain ⟨stamps, hlength, hprint⟩ := h
  obtain ⟨stamps', hlength', hprint'⟩ := h'
  have hsame := hinj (hprint.symm.trans hprint')
  have hzip := congrArg List.length (Digest.operation.inj hsame).2.2
  rw [List.length_zip, List.length_zip, List.length_map, List.length_map] at hzip
  omega

theorem Stage.appliedRecords (h : Stage env initial finished [] s)
    (hinj : Function.Injective env.sha256) (he : e ∈ finished) {row : OutboxRow}
    (hrow : s.db.outbox.get? e.operationId = some row) (hp : row.pending = none)
    (hprint : Prints env row.fingerprint envelope) :
    ∃ records, appliedRecords s.db e.operationId 0 envelope.events = .ok records ∧
      Complete s.journaled e records := by
  have hprepared : e ∈ s.prepared := by
    rw [h.prepared]
    exact List.mem_append_left _ he
  obtain ⟨e', he', hid, _, _, hprint'⟩ := h.books.known _ row hrow
  have hsame := h.books.unique he' hprepared hid
  subst hsame
  have hlength := length_of_prints hinj hprint' hprint
  obtain ⟨before, block, after, hjournaled, hblock⟩ := h.contiguous e' he
  have hin : ∀ i ∈ block, i ∈ s.journaled := by
    intro i hi
    rw [hjournaled]
    exact List.mem_append_left _ (List.mem_append_right _ hi)
  have hsize : block.length = e'.events.length := by
    have hboth := congrArg List.length hblock
    unfold requestsOf at hboth
    rwa [List.length_map, List.length_map] at hboth
  have hkeys : (block.map fun i => i.request.operationKey) =
      (List.range' 0 block.length).map (outboxKey e'.operationId) := by
    have hmap := congrArg (List.map AppendRequest.operationKey) hblock
    unfold requestsOf at hmap
    rw [List.map_map, List.map_map] at hmap
    rw [hsize, ← List.range_eq_range', ← h.books.keyed e' hprepared]
    exact hmap
  have hrows : ∀ i ∈ block, ∃ fingerprint,
      s.db.ledger.get? i.request.operationKey = some (insertedRow fingerprint i.record) := by
    intro i hi
    have hreq := List.mem_map_of_mem (f := Insertion.request) hi
    rw [hblock] at hreq
    obtain ⟨event, hev, hevent⟩ := List.mem_map.mp hreq
    obtain ⟨r, hr⟩ := h.books.complete _ row hrow hp e' hprepared rfl event hev
    have hkey : i.request.operationKey = event.operationKey := by
      rw [← hevent]
      rfl
    obtain ⟨j, hj, hjkey, content, _, rfl⟩ := h.history.rows _ r hr
    have hij : j = i :=
      List.inj_on_of_nodup_map h.history.distinct hj (hin i hi) (hjkey.trans hkey.symm)
    rw [hkey, hr, hij]
    exact ⟨_, rfl⟩
  obtain ⟨records, hrecords, hplaces⟩ :=
    appliedRecords_complete (hlength.trans hsize.symm) hkeys hrows
  exact ⟨records, hrecords, block, hin, hblock, hplaces⟩

theorem Stage.prepare_again (h : Stage env initial finished [] s)
    (hid : envelope.operationId = e.operationId)
    (hstamp : Stamped env e.operationId fingerprint s) (full : Bool) :
    (∃ row, s.db.outbox.get? e.operationId = some row ∧ row.pending = none ∧
        row.fingerprint = fingerprint ∧
        Journal.prepare env s.db fingerprint envelope full = .ok (.applied, s.db)) ∨
      Journal.prepare env s.db fingerprint envelope full = .error expiredOperation := by
  unfold Journal.prepare
  rw [hid]
  cases hrow : s.db.outbox.get? e.operationId with
  | some row =>
    have hp : row.pending = none := by
      cases hp : row.pending with
      | none => rfl
      | some earlier =>
        obtain ⟨_, hm, _⟩ := h.books.of_isPending
          (isPending_iff.mpr ⟨row, hrow, by rw [hp]; exact Option.some_ne_none _⟩)
        rw [h.pending] at hm
        cases hm
    have hprint := hstamp.row row hrow
    refine .inl ⟨row, rfl, hp, hprint, ?_⟩
    simp only
    rw [if_pos hprint, hp]
  | none =>
    refine .inr ?_
    have htombstone : outboxTombstoneKey env envelope.operationId ∈ s.db.tombstones := by
      rw [hid]
      rcases hstamp.taken with ⟨row, hget⟩ | ht
      · rw [hrow] at hget
        cases hget
      · exact ht
    unfold admitOperation
    simp only
    rw [refuse_bind_of htombstone]
    rfl

theorem prepareOperation_applied {full : String → Bool}
    (h : Journal.prepare env s.db fingerprint envelope (full envelope.operationId) =
      .ok (.applied, s.db)) :
    prepareOperation env full fingerprint envelope s = (.ok .applied, s) := by
  unfold prepareOperation
  have htransact : transact (fun db => Journal.prepare env db fingerprint envelope
      (full envelope.operationId)) s = (.ok .applied, s) := by
    unfold transact
    simp only [h]
  rw [bind_run_of_ok htransact]
  have hempty : (if Preparation.applied = Preparation.admitted then [envelope] else []) = [] :=
    if_neg (by decide)
  change (Except.ok Preparation.applied, { s with
    prepared :=
      s.prepared ++ if Preparation.applied = Preparation.admitted then [envelope] else [] }) = _
  rw [hempty, List.append_nil]

theorem prepareOperation_error {full : String → Bool} {error : JournalError}
    (h : Journal.prepare env s.db fingerprint envelope (full envelope.operationId) = .error error) :
    prepareOperation env full fingerprint envelope s = (.error error, s) := by
  unfold prepareOperation
  refine bind_run_of_error ?_ _
  unfold transact
  simp only [h]

theorem Durable.retry (h : Durable env initial s) (hinj : Function.Injective env.sha256)
    {operation : Operation} {draws : CommitDraws}
    (hcheck : checkOperation env operation draws.now = .ok (fingerprint, envelope))
    (he : e ∈ s.prepared) (hid : e.operationId = operation.operationId)
    (hstamp : Stamped env operation.operationId fingerprint s) :
    Answered env s e draws.isFull (commitOperation env operation draws s) := by
  have hprepared : Settles env fun t => t.prepared = s.prepared :=
    ⟨fun t _ _ _ ht => ht, fun t _ _ _ _ ht _ => ht⟩
  obtain ⟨hok, _⟩ := triple_ensureReconciled s h
  obtain ⟨hsame, _⟩ := hprepared.ensureReconciled s rfl
  obtain ⟨hkept, _⟩ :=
    (Stamped.closed env operation.operationId fingerprint).toSettles.ensureReconciled
    s hstamp
  unfold commitOperation
  rcases hr : ensureReconciled env draws.isFull s with ⟨r, t⟩
  cases r with
  | error error =>
    rw [bind_run_of_error hr]
    exact .inr (congrArg Prod.fst hr)
  | ok _ =>
    rw [bind_run_of_ok hr]
    obtain ⟨finished, hstage⟩ := hok _ t hr
    have hin : e ∈ finished := by
      have hfinished := hstage.prepared
      rw [List.append_nil, hsame _ t hr] at hfinished
      exact hfinished ▸ he
    have hcheckRun : (lift (checkOperation env operation draws.now) :
        Action Outbox JournalError (String × Envelope)) t = (.ok (fingerprint, envelope), t) := by
      rw [hcheck]
      rfl
    rw [bind_run_of_ok hcheckRun]
    obtain ⟨_, henvelope, hprint⟩ := checkOperation_spec hcheck
    have hsameId : envelope.operationId = e.operationId := henvelope.trans hid.symm
    have hstamp' := hid.symm ▸ hkept _ t hr
    rcases hstage.prepare_again hsameId hstamp' (draws.isFull envelope.operationId) with
      ⟨row, hrow, hp, hrowPrint, hfound⟩ | hexpired
    · obtain ⟨records, hrecords, hcomplete⟩ :=
        hstage.appliedRecords hinj hin hrow hp (hrowPrint.symm ▸ hprint)
      simp only
      rw [bind_run_of_ok (prepareOperation_applied hfound)]
      change Answered env s e draws.isFull
        (Journal.appliedRecords t.db envelope.operationId 0 envelope.events, t)
      rw [hsameId, hrecords]
      exact hcomplete
    · simp only
      rw [bind_run_of_error (prepareOperation_error hexpired)]
      exact .inl rfl

end

structure Completes (env : Environment) (files : Dict String StateFile) (calls : List Call) :
    Prop where
  retry : ∀ before operation draws failure after,
    calls = before ++ .commit operation draws failure :: after →
    (∀ e ∈ ((Outbox.initial files).run env before).prepared,
      e.operationId ≠ operation.operationId) →
    ∀ e ∈ ((Outbox.initial files).run env (before ++ [.commit operation draws failure])).prepared,
      e.operationId = operation.operationId →
    ∀ again fingerprint envelope,
      checkOperation env operation again.now = .ok (fingerprint, envelope) →
      Answered env { (Outbox.initial files).run env calls with failure := none } e again.isFull
        (commitOperation env operation again
          { (Outbox.initial files).run env calls with failure := none })

theorem Completes.error {files : Dict String StateFile} {calls : List Call}
    (h : Completes env files calls) {before after : List Call} {operation : Operation}
    {draws again : CommitDraws} {failure : Option (Nat × Failure)}
    (hcalls : calls = before ++ .commit operation draws failure :: after)
    (hfresh : ∀ e ∈ ((Outbox.initial files).run env before).prepared,
      e.operationId ≠ operation.operationId) (hprepared : ∃ e ∈ ((Outbox.initial files).run env
      (before ++ [.commit operation draws failure])).prepared,
        e.operationId = operation.operationId)
    (hcheck : (checkOperation env operation again.now).isOk = true) {error : JournalError}
    (hrun : (commitOperation env operation again
      { (Outbox.initial files).run env calls with failure := none }).1 = .error error) :
    error = expiredOperation ∨ (ensureReconciled env again.isFull
      { (Outbox.initial files).run env calls with failure := none }).1 = .error error := by
  obtain ⟨e, he, hid⟩ := hprepared
  cases hc : checkOperation env operation again.now with
  | error failed =>
    rw [hc] at hcheck
    cases hcheck
  | ok checked =>
    have hretry := h.retry before operation draws failure after hcalls hfresh e he hid again _ _ hc
    rcases hr : commitOperation env operation again
      { (Outbox.initial files).run env calls with failure := none } with ⟨result, t⟩
    rw [hr] at hretry hrun
    change result = _ at hrun
    subst hrun
    exact hretry

theorem Outbox.run_append (env : Environment) (s : Outbox) (calls more : List Call) :
    s.run env (calls ++ more) = (s.run env calls).run env more :=
  List.foldl_append

end CodexBridge.Journal
