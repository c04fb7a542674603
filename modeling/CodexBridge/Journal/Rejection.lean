import CodexBridge.Journal.Durable

/-! # Rejected operations

The row of an operation is committed before its files are examined. When the marker
of a file turns the operation down, nothing is written, but the row stays pending;
and as every commit and every reconciliation starts with the oldest pending row, all
of them fail from then on.
-/

namespace CodexBridge.Journal

open Effect

/-! ## Errors of the checks -/

def NoConflict (e : JournalError) : Prop := ∀ m, e ≠ .stateConflict m

theorem noConflict_value (m : String) : NoConflict (.value m) := by
  intro m' h
  cases h

theorem boundedIdentifier_raises (value field : String) (maximum : Nat) :
    Raises NoConflict (boundedIdentifier value field maximum) := by
  unfold boundedIdentifier
  split
  · exact Raises.ok
  · exact Raises.error (noConflict_value _)

theorem normalizeScope_raises (scope : String) (threadId : Option String) :
    Raises NoConflict (normalizeScope scope threadId) := by
  unfold normalizeScope
  split
  · cases threadId with
    | none => exact Raises.error (noConflict_value _)
    | some id => exact (boundedIdentifier_raises _ _ _).map
  split
  · split
    · exact Raises.error (noConflict_value _)
    · exact Raises.ok
  · exact Raises.error (noConflict_value _)

theorem projectPayload_raises (eventType : String) (payload : Json) :
    Raises NoConflict (projectPayload eventType payload) := by
  cases payload with
  | obj fields => exact Raises.ok
  | _ => exact Raises.error (noConflict_value _)

theorem optionalIdentifier_raises (value : Option String) (field : String) (maximum : Nat) :
    Raises NoConflict (optionalIdentifier value field maximum) := by
  cases value with
  | none => exact Raises.ok
  | some v => exact (boundedIdentifier_raises _ _ _).map

theorem relativeStatePath_raises (value : String) :
    Raises NoConflict (relativeStatePath value) := by
  unfold relativeStatePath
  split
  · exact Raises.error (noConflict_value _)
  split
  · exact Raises.error fun m h => by cases h
  dsimp only
  split
  · exact Raises.error (noConflict_value _)
  · exact Raises.ok

theorem relativeStatePath_eq {value path : String} (h : relativeStatePath value = .ok path) :
    path = value := by
  unfold relativeStatePath at h
  split at h
  · cases h
  split at h
  · cases h
  dsimp only at h
  split at h
  · cases h
  · cases h
    rfl

variable (env : Environment)

theorem checkWrites_raises (total : Nat) (writes : List OutboxWrite) :
    Raises NoConflict (checkWrites env total writes) := by
  induction writes generalizing total with
  | nil => exact Raises.ok
  | cons write rest ih =>
    refine (relativeStatePath_raises _).bind fun _ => ?_
    refine (Raises.refuse (noConflict_value _)).bind fun _ => ?_
    refine (Raises.refuse (noConflict_value _)).bind fun _ => ?_
    exact (Raises.refuse fun m h => by cases h).bind fun _ => ih _

theorem checkDrafts_raises (total : Nat) (drafts : List EventDraft) :
    Raises NoConflict (checkDrafts env total drafts) := by
  induction drafts generalizing total with
  | nil => exact Raises.ok
  | cons draft rest ih =>
    refine (normalizeScope_raises _ _).bind fun _ => ?_
    refine (boundedIdentifier_raises _ _ _).bind fun _ => ?_
    refine (optionalIdentifier_raises _ _ _).bind fun _ => ?_
    refine (projectPayload_raises _ _).bind fun _ => ?_
    refine (Raises.refuse fun m h => by cases h).bind fun _ => ?_
    exact (Raises.refuse fun m h => by cases h).bind fun _ => ih _

theorem encodeWrites_raises (id : String) (seen : List String) (writes : List OutboxWrite) :
    Raises NoConflict (encodeWrites id seen writes) := by
  induction writes generalizing seen with
  | nil => exact Raises.ok
  | cons write rest ih =>
    refine (relativeStatePath_raises _).bind fun _ => ?_
    refine (Raises.refuse (noConflict_value _)).bind fun _ => ?_
    exact (ih _).bind fun _ => Raises.ok

theorem encodeDrafts_raises (id : String) (now : Nat → String) (index : Nat)
    (drafts : List EventDraft) : Raises NoConflict (encodeDrafts env id now index drafts) := by
  induction drafts generalizing index with
  | nil => exact Raises.ok
  | cons draft rest ih =>
    refine (normalizeScope_raises _ _).bind fun _ => ?_
    refine (boundedIdentifier_raises _ _ _).bind fun _ => ?_
    refine (projectPayload_raises _ _).bind fun _ => ?_
    exact (ih _).bind fun _ => Raises.ok

theorem checkOperation_raises (operation : Operation) (now : Nat → String) :
    Raises NoConflict (checkOperation env operation now) := by
  have hbounds : Raises NoConflict (validateOperationBounds env operation) := by
    refine (Raises.refuse fun m h => by cases h).bind fun _ => ?_
    refine (Raises.refuse fun m h => by cases h).bind fun _ => ?_
    refine (checkWrites_raises _ _ _).bind fun _ => ?_
    exact (checkDrafts_raises _ _ _).bind fun _ => Raises.ok
  have henvelope : Raises NoConflict (operationEnvelope env operation now) := by
    refine (Raises.refuse (noConflict_value _)).bind fun _ => ?_
    refine (encodeWrites_raises _ _ _).bind fun _ => ?_
    exact (encodeDrafts_raises _ _ _ _ _).bind fun _ => Raises.ok
  refine (boundedIdentifier_raises _ _ _).bind fun _ => ?_
  refine hbounds.bind fun _ => henvelope.bind fun _ => ?_
  exact (Raises.refuse fun m h => by cases h).bind fun _ => Raises.ok

theorem prepare_raises (db : Database) (fingerprint : String) (e : Envelope)
    (full : Bool) : Raises NoConflict (prepare env db fingerprint e full) := by
  have hcapacity : Raises NoConflict
      (requireOutboxCompletionCapacity env db (!e.events.isEmpty)) := by
    unfold requireOutboxCompletionCapacity requireTombstoneCapacity
    split
    · exact Raises.ok
    split
    · split
      · exact Raises.error fun m h => by cases h
      · exact Raises.ok
    · exact Raises.ok
  have hadmit : Raises NoConflict (admitOperation env db fingerprint e full) := by
    refine (Raises.refuse fun m h => by cases h).bind fun _ => ?_
    refine (Raises.refuse fun m h => by cases h).bind fun _ => ?_
    refine hcapacity.bind fun _ => ?_
    exact (Raises.refuse fun m h => by cases h).bind fun _ => Raises.ok
  unfold prepare
  cases db.outbox.get? e.operationId with
  | some row =>
    dsimp only
    split
    · exact Raises.ok
    · exact Raises.error fun m h => by cases h
  | none =>
    dsimp only
    cases ha : admitOperation env db fingerprint e full with
    | ok next => exact Raises.ok
    | error error =>
      have hne := hadmit error ha
      cases error with
      | capacity m => exact Raises.error fun m h => by cases h
      | _ => exact Raises.error hne

theorem appliedRecords_raises (db : Database) (id : String) (index : Nat)
    (events : List EnvelopeEvent) : Raises NoConflict (appliedRecords db id index events) := by
  induction events generalizing index with
  | nil => exact Raises.ok
  | cons event rest ih =>
    unfold appliedRecords
    split
    · exact Raises.error fun m h => by cases h
    · exact (ih _).bind fun _ => Raises.ok

def Refused (w : EnvelopeWrite) (file : Option StateFile) : Prop :=
  ∃ current canonical, file = some (.marked current canonical) ∧
    w.document.revision ≤ current.revision ∧ current ≠ w.document

theorem examineWrite_refused {w : EnvelopeWrite} {file : Option StateFile} (h : Refused w file)
    (id : String) : ∃ m, examineWrite id w file = .error (.stateConflict m) := by
  obtain ⟨current, canonical, rfl, hrevision, hne⟩ := h
  unfold examineWrite
  dsimp only
  have holder : ¬ current.revision < w.document.revision := by omega
  rw [if_neg hne, if_neg holder]
  split
  · exact ⟨_, rfl⟩
  · exact ⟨_, rfl⟩

theorem triple_examineWrites_refused {I : Outbox → Prop} {w : EnvelopeWrite}
    {writes : List EnvelopeWrite} (hI : ∀ s failure, I s → I { s with failure := failure })
    (hr : ∀ s, I s → Refused w (s.files.get? w.relativePath)) (hw : w ∈ writes) (id : String) :
    Triple I (examineWrites id writes) (fun _ _ => False) (fun _ => I) := by
  induction writes with
  | nil => cases hw
  | cons write rest ih =>
    refine Triple.bind (triple_point hI) fun _ => ?_
    refine Triple.bind (Q := fun file s => file = s.files.get? write.relativePath ∧ I s)
      (Triple.read fun s hs => ⟨rfl, hs⟩) fun file => ?_
    rcases List.mem_cons.mp hw with rfl | hw
    · refine Triple.bind (Q := fun _ _ => False)
        (Triple.lift (fun _ s hs hok => ?_) fun _ s hs _ => hs.2) fun _ s hs => hs.elim
      obtain ⟨m, hm⟩ := examineWrite_refused (hr s hs.2) id
      rw [hs.1, hm] at hok
      cases hok
    · refine Triple.bind (Q := fun _ => I)
        (Triple.lift (fun _ s hs _ => hs.2) fun _ s hs _ => hs.2) fun _ => ?_
      exact Triple.bind (ih hw) fun _ s hs => hs.elim

structure Blocked (e : Envelope) (s : Outbox) : Prop where
  pending : pendingEnvelopes s.db = [e]
  refused : ∃ w ∈ e.writes, Refused w (s.files.get? w.relativePath)
  flag : s.reconciled = false

def Same (u s : Outbox) : Prop := ∃ failure, s = { u with failure := failure }

theorem Same.rfl {s : Outbox} : Same s s := ⟨s.failure, Eq.refl s⟩

theorem Same.with_failure {u s : Outbox} {failure : Option (Nat × Failure)} (h : Same u s) :
    Same u { s with failure := failure } := by
  obtain ⟨_, hs⟩ := h
  exact ⟨failure, by rw [hs]⟩

theorem Blocked.same {e : Envelope} {u s : Outbox} (h : Blocked e u) (hs : Same u s) :
    Blocked e s := by
  obtain ⟨failure, rfl⟩ := hs
  exact ⟨h.pending, h.refused, h.flag⟩

section

variable {env : Environment} {isFull : String → Bool} {e : Envelope} {u s : Outbox}

theorem Blocked.applyWrites (h : Blocked e u) :
    Triple (Same u) (applyWrites e) (fun _ _ => False) (fun _ => Same u) := by
  obtain ⟨w, hw, hr⟩ := h.refused
  refine Triple.bind (triple_examineWrites_refused (fun s failure hs => hs.with_failure)
    (fun s hs => ?_) hw e.operationId) fun _ s hs => hs.elim
  obtain ⟨failure, rfl⟩ := hs
  exact hr

theorem Blocked.reconcile (h : Blocked e u) :
    Triple (Same u) (Journal.reconcile env isFull) (fun _ _ => False) (fun _ => Same u) := by
  refine Triple.bind (Q := fun _ => Same u) (Triple.modify fun s hs => ?_) fun _ => ?_
  · obtain ⟨failure, rfl⟩ := hs
    exact ⟨failure, by rw [← h.flag]⟩
  refine Triple.bind (Q := fun n s => n = 1 ∧ Same u s) (Triple.read fun s hs => ?_) fun n => ?_
  · rw [(h.same hs).pending]
    exact ⟨rfl, hs⟩
  refine Triple.of_pure fun hn => ?_
  subst hn
  refine Triple.bind (Q := fun envelope s => envelope = some e ∧ Same u s)
    (Triple.read fun s hs => ?_) fun envelope => Triple.of_pure fun he => ?_
  · rw [(h.same hs).pending]
    exact ⟨rfl, hs⟩
  subst he
  exact Triple.bind h.applyWrites fun _ s hs => hs.elim

theorem Blocked.commitOperation (h : Blocked e u) (operation : Operation) (draws : CommitDraws) :
    Triple (Same u) (Journal.commitOperation env operation draws) (fun _ _ => False)
      (fun _ => Same u) := by
  have hensure : Triple (Same u) (ensureReconciled env draws.isFull) (fun _ _ => False)
      (fun _ => Same u) := by
    refine Triple.bind (Q := fun flag s => flag = false ∧ Same u s) (Triple.read fun s hs => ?_)
      fun flag => Triple.of_pure fun hflag => ?_
    · exact ⟨(h.same hs).flag, hs⟩
    · subst hflag
      exact Triple.bind h.reconcile fun _ s hs => hs.elim
  exact Triple.bind hensure fun _ s hs => hs.elim

def BlockedAt (e : Envelope) (files : Dict String StateFile) (s : Outbox) : Prop :=
  Blocked e s ∧ s.files = files

theorem BlockedAt.keepsEdits (env : Environment) {files : Dict String StateFile} :
    KeepsEdits env (fun _ => True) (BlockedAt e files) :=
  fun _ _ _ hs hedits => ⟨⟨hedits.leaves.pending.trans hs.1.pending, hs.1.refused, hs.1.flag⟩, hs.2⟩

theorem BlockedAt.perform {files : Dict String StateFile} (h : BlockedAt e files s)
    (call : Call) : BlockedAt e files (s.perform env call) := by
  have hsame : ∀ t, Same s t → BlockedAt e files t := by
    intro t ht
    refine ⟨h.1.same ht, ?_⟩
    obtain ⟨failure, rfl⟩ := ht
    exact h.2
  cases call with
  | append request draws => exact (keepsEdits env).append trivial draws h
  | compact scope through snapshot threadId => exact (keepsEdits env).compact h
  | purge threadId => exact (keepsEdits env).purge h
  | commit operation draws failure =>
    refine hsame _ (Triple.state (P := Same s)
      ((h.1.commitOperation operation draws).returns (fun _ _ hs => hs.elim)) ?_)
    exact Same.rfl.with_failure
  | reconcile isFull failure =>
    refine hsame _ (Triple.state (P := Same s) (h.1.reconcile.returns (fun _ _ hs => hs.elim)) ?_)
    exact Same.rfl.with_failure
  | restart => exact ⟨⟨h.1.pending, h.1.refused, rfl⟩, h.2⟩

theorem BlockedAt.run {files : Dict String StateFile} (h : BlockedAt e files s)
    (calls : List Call) : BlockedAt e files (s.run env calls) := by
  refine Outbox.run_invariant (C := fun _ => True) (fun s call _ hs => ?_) h fun _ _ => trivial
  exact hs.perform call

end

/-! ## Rejections -/

def Stale (operation : Operation) (s : Outbox) : Prop :=
  ∃ w ∈ operation.writes, ∃ current canonical,
    s.files.get? w.relativePath = some (.marked current canonical) ∧
      w.stateRevision ≤ current.revision ∧ current ≠ documentOf operation.operationId w

theorem encodeWrites_mem {id : String} {seen : List String} {writes : List OutboxWrite}
    {encoded : List EnvelopeWrite} (h : encodeWrites id seen writes = .ok encoded)
    {w : OutboxWrite} (hw : w ∈ writes) :
    ⟨w.relativePath, documentOf id w⟩ ∈ encoded := by
  induction writes generalizing seen encoded with
  | nil => cases hw
  | cons write rest ih =>
    unfold encodeWrites at h
    obtain ⟨path, hpath, h⟩ := except_bind_eq_ok.mp h
    rw [refuse_bind_eq_ok] at h
    obtain ⟨_, h⟩ := h
    obtain ⟨others, hrest, h⟩ := except_bind_eq_ok.mp h
    cases h
    rcases List.mem_cons.mp hw with rfl | hw
    · rw [relativeStatePath_eq hpath]
      exact List.mem_cons_self
    · exact List.mem_cons_of_mem _ (ih hrest hw)

theorem checkOperation_writes {env : Environment} {operation : Operation} {now : Nat → String}
    {fingerprint : String} {e : Envelope}
    (h : checkOperation env operation now = .ok (fingerprint, e)) {w : OutboxWrite}
    (hw : w ∈ operation.writes) :
    ⟨w.relativePath, documentOf operation.operationId w⟩ ∈ e.writes := by
  obtain ⟨_, _, hwrites, _⟩ := checkOperation_eq_ok h
  exact encodeWrites_mem hwrites hw

/-- What a rejected operation leaves: its pending row, and everything else as it was. -/
structure Rejected (operation : Operation) (s t : Outbox) : Prop where
  files : t.files = s.files
  journaled : t.journaled = s.journaled
  journal : { t.db with outbox := s.db.outbox } = s.db
  blocked : ∃ e, e.operationId = operation.operationId ∧ Blocked e t

section

variable {env : Environment} {isFull : String → Bool} {operation : Operation} {s : Outbox}

/-- As before the call, the flag and the failure ahead apart. -/
def Untouched (s t : Outbox) : Prop :=
  t.db = s.db ∧ t.files = s.files ∧ t.prepared = s.prepared ∧ t.journaled = s.journaled

theorem triple_ensureReconciled_settled (hnone : pendingEnvelopes s.db = []) :
    Triple (Untouched s) (ensureReconciled env isFull) (fun _ => Untouched s)
      (fun _ _ => False) := by
  have hrows : Triple (Untouched s) (reconcileRows env isFull 0) (fun _ => Untouched s)
      (fun _ _ => False) :=
    Triple.bind (Triple.modify fun t ht => ht) fun _ => Triple.pure fun t ht => ht
  have hreconcile : Triple (Untouched s) (reconcile env isFull) (fun _ => Untouched s)
      (fun _ _ => False) := by
    refine Triple.bind (Q := fun _ => Untouched s) (Triple.modify fun t ht => ht) fun _ => ?_
    refine Triple.bind (Q := fun n t => n = 0 ∧ Untouched s t) (Triple.read fun t ht => ?_)
      fun n => Triple.of_pure fun hn => hn ▸ hrows
    rw [ht.1, hnone]
    exact ⟨rfl, ht⟩
  refine Triple.bind (Q := fun _ => Untouched s) (Triple.read fun t ht => ht) fun flag => ?_
  cases flag with
  | true => exact Triple.pure fun t ht => ht
  | false => exact Triple.bind hreconcile fun _ => Triple.pure fun t ht => ht

/-- A fresh operation was admitted and `P` holds; an applied one ends the commit. -/
def Admitted (P : Outbox → Prop) : Preparation → Outbox → Prop
  | .applied, _ => True
  | .resumed _, _ => False
  | .admitted, t => P t

/-- A stale operation fails; an `OutboxStateConflictError` leaves its row pending. -/
theorem triple_commitOperation_stale (draws : CommitDraws) (hnone : pendingEnvelopes s.db = [])
    (hstale : Stale operation s) : Triple (Untouched s) (commitOperation env operation draws)
      (fun _ _ => True) (fun error t => NoConflict error ∨ Rejected operation s t) := by
  refine Triple.bind ((triple_ensureReconciled_settled hnone).raises fun _ _ hf => hf.elim) fun _ =>
    ?_
  refine Triple.bind (Q := fun checked t => checkOperation env operation draws.now = .ok checked ∧
      Untouched s t)
    (Triple.lift (fun checked t ht hok => ⟨hok, ht⟩) fun error t _ herr =>
      .inl (checkOperation_raises env operation draws.now error herr))
    fun checked => Triple.of_pure fun hchecked => ?_
  obtain ⟨fingerprint, e⟩ := checked
  have hid := (checkOperation_spec hchecked).2.1
  let u : Outbox := { s with
    db := insertPending s.db fingerprint e
    reconciled := false
    prepared := s.prepared ++ [e] }
  -- the pending row is the only one, and its stale write is refused
  have hu : s.db.outbox.get? e.operationId = none → Blocked e u := by
    intro hnorow
    refine ⟨?_, ?_, rfl⟩
    · have hvalues := Dict.values_set_of_none s.db.outbox hnorow
        (⟨fingerprint, some e, !e.events.isEmpty⟩ : OutboxRow)
      change (s.db.outbox.set _ _).values.filterMap OutboxRow.pending = [e]
      rw [hvalues, List.filterMap_append]
      change pendingEnvelopes s.db ++ [e] = [e]
      rw [hnone, List.nil_append]
    · obtain ⟨w, hw, current, canonical, hfile, hrevision, hne⟩ := hstale
      exact ⟨_, checkOperation_writes hchecked hw, current, canonical, hfile, hrevision, hne⟩
  have hleft : Blocked e u → ∀ t, Same u t → Rejected operation s t := by
    rintro hblocked t ⟨failure, rfl⟩
    exact ⟨rfl, rfl, rfl, e, hid, hblocked.pending, hblocked.refused, rfl⟩
  refine Triple.bind (Q := Admitted fun t => s.db.outbox.get? e.operationId = none ∧
    Same u { t with reconciled := false }) ?_ fun preparation => ?_
  · refine Triple.bind (Q := Admitted fun t => s.db.outbox.get? e.operationId = none ∧
      Same u { t with reconciled := false, prepared := t.prepared ++ [e] }) ?_
      fun preparation => ?_
    · refine triple_transact (fun t preparation db ht hp => ?_) fun t error _ herr =>
        .inl (prepare_raises _ _ _ _ _ error herr)
      obtain ⟨db₀, files, reconciled, failure, prepared, journaled⟩ := t
      obtain ⟨rfl, rfl, rfl, rfl⟩ := ht
      rcases prepare_spec hp with ⟨row, hrow, _, rfl, rfl⟩ | ⟨hnorow, rfl, _, rfl⟩
      · cases hrp : row.pending with
        | none => exact trivial
        | some p =>
          have hm : p ∈ pendingEnvelopes s.db :=
            List.mem_filterMap.mpr ⟨row, Dict.mem_values_of_get? hrow, hrp⟩
          rw [hnone] at hm
          cases hm
      · exact ⟨hnorow, failure, rfl⟩
    · refine Triple.bind (Q := fun _ => Admitted (fun t => s.db.outbox.get? e.operationId = none ∧
        Same u { t with reconciled := false }) preparation) (Triple.modify fun t ht => ?_)
        fun _ => Triple.pure fun t ht => ht
      cases preparation with
      | applied => exact trivial
      | resumed earlier => exact ht
      | admitted => exact ht
  · cases preparation with
    | applied =>
      refine Triple.bind (Q := fun _ _ => True) (Triple.read fun t _ => trivial) fun db => ?_
      exact Triple.lift (fun _ _ _ _ => trivial) fun error t _ herr =>
        .inl (appliedRecords_raises _ _ _ _ error herr)
    | resumed earlier => exact fun t ht => ht.elim
    | admitted =>
      refine Triple.of_pure fun hnorow => ?_
      have hpublish : Triple (fun t => Same u { t with reconciled := false })
          (publish env draws.isFull e) (fun _ _ => False) (fun _ => Same u) := by
        refine Triple.bind (Q := fun _ => Same u) (Triple.modify fun t ht => ht) fun _ => ?_
        refine Triple.bind (triple_point fun t failure ht => ht.with_failure) fun _ => ?_
        exact Triple.bind (hu hnorow).applyWrites fun _ t ht => ht.elim
      exact hpublish.weaken (fun _ ht => ht) (fun _ _ hf => hf.elim)
        fun _ t ht => .inr (hleft (hu hnorow) t ht)

/-- A rejection writes no file and journals nothing, but it stays pending and the outbox
fails closed: no later commit or reconciliation succeeds, whatever happens between. -/
theorem rejected_failsClosed (env : Environment) (operation : Operation) (draws : CommitDraws)
    (s t : Outbox) (m : String) (hnone : pendingEnvelopes s.db = []) (hstale : Stale operation s)
    (h : commitOperation env operation draws s = (.error (.stateConflict m), t)) :
    t.files = s.files ∧ t.journaled = s.journaled ∧
      { t.db with outbox := s.db.outbox } = s.db ∧
      ∃ e, e.operationId = operation.operationId ∧ pendingEnvelopes t.db = [e] ∧
        ∀ calls, (t.run env calls).files = s.files ∧
          pendingEnvelopes (t.run env calls).db = [e] ∧
          (∀ later draws failure records v, commitOperation env later draws
            { t.run env calls with failure := failure } ≠ (.ok records, v)) ∧
          ∀ isFull failure applied v, reconcile env isFull
            { t.run env calls with failure := failure } ≠ (.ok applied, v) := by
  have htriple : Triple (Untouched s) (commitOperation env operation draws) (fun _ _ => True)
      (fun error t => NoConflict error ∨ Rejected operation s t) :=
    triple_commitOperation_stale draws hnone hstale
  rcases (htriple s ⟨rfl, rfl, rfl, rfl⟩).2 _ t h with hno | hrejected
  · exact absurd rfl (hno m)
  obtain ⟨hfiles, hjournaled, hjournal, e, hid, hblocked⟩ := hrejected
  refine ⟨hfiles, hjournaled, hjournal, e, hid, hblocked.pending, fun calls => ?_⟩
  have hrun : BlockedAt e s.files (t.run env calls) := BlockedAt.run ⟨hblocked, hfiles⟩ calls
  refine ⟨hrun.2, hrun.1.pending, ?_, ?_⟩
  · intro later draws failure records v hok
    exact (hrun.1.commitOperation later draws _ Same.rfl.with_failure).1 records v hok
  · intro isFull failure applied v hok
    exact (hrun.1.reconcile _ Same.rfl.with_failure).1 applied v hok

end

def newerFiles : Dict String StateFile :=
  .ofList [("threads/1.json", .marked ⟨"newer", 5, samplePayload "messages" 5⟩ true)]

def staleCommit : Except JournalError (List Record) × Outbox :=
  commitOperation sampleEnvironment (sampleOperation "a" 3) sampleCommitDraws
    (Outbox.initial newerFiles)

theorem stale_newerFiles : Stale (sampleOperation "a" 3) (Outbox.initial newerFiles) :=
  ⟨⟨"threads/1.json", 3, samplePayload "messages" 3⟩, by simp [sampleOperation],
    ⟨"newer", 5, samplePayload "messages" 5⟩, true, by decide +kernel, by decide, by decide⟩

theorem rejected_failsClosed_staleCommit : ∃ e, e.operationId = "a" ∧
    pendingEnvelopes staleCommit.2.db = [e] ∧
    ∀ calls, (staleCommit.2.run sampleEnvironment calls).files = newerFiles ∧
      pendingEnvelopes (staleCommit.2.run sampleEnvironment calls).db = [e] := by
  have herror : staleCommit.1 =
      .error (.stateConflict "The canonical state has a divergent revision.") := by decide +kernel
  have hcall : staleCommit =
      (.error (.stateConflict "The canonical state has a divergent revision."), staleCommit.2) :=
    Prod.ext herror rfl
  obtain ⟨_, _, _, e, hid, hpending, hrun⟩ := rejected_failsClosed sampleEnvironment
    (sampleOperation "a" 3) sampleCommitDraws (Outbox.initial newerFiles) staleCommit.2 _
    (by decide +kernel) stale_newerFiles hcall
  exact ⟨e, hid, hpending, fun calls => ⟨(hrun calls).1, (hrun calls).2.1⟩⟩

/-- The rejected call leaves a pending row, and a reconciliation that succeeded before it
raises after it. -/
theorem staleCommit_blocks :
    pendingEnvelopes (Outbox.initial newerFiles).db = [] ∧
      Stale (sampleOperation "a" 3) (Outbox.initial newerFiles) ∧
      staleCommit.1 = .error (.stateConflict "The canonical state has a divergent revision.") ∧
      (pendingEnvelopes staleCommit.2.db).length = 1 ∧
      (reconcile sampleEnvironment (fun _ => false) (Outbox.initial newerFiles)).1 = .ok 0 ∧
      (reconcile sampleEnvironment (fun _ => false) staleCommit.2).1 =
        .error (.stateConflict "The canonical state has a divergent revision.") :=
  ⟨by decide +kernel, stale_newerFiles, by decide +kernel, by decide +kernel, by decide +kernel,
    by decide +kernel⟩

end CodexBridge.Journal
