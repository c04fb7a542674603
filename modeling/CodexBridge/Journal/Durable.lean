import CodexBridge.Journal.Conduct

/-! # The outbox across crashes

Whatever call fails wherever it fails, at most one operation is pending afterwards.
All earlier operations are finished: their events are journaled in order and their
files written; of the pending one only some files may already be there.
-/

namespace CodexBridge.Journal

open Effect

/-! ## Calls -/

/-- `append` on the component, with the event it inserted recorded. -/
def appendEvent (env : Environment) (request : AppendRequest) (draws : Draws) :
    Action Outbox JournalError Record := do
  let result ← transact fun db =>
    (append env db request draws).map fun r => ((r.1, r.2.1), r.2.2)
  let added := if result.2 then [Insertion.mk request result.1] else []
  modify fun s => { s with journaled := s.journaled ++ added }
  pure result.1

/-- A call on the store or the outbox; a restart loses only the flag of the instance. -/
inductive Call where
  | append (request : AppendRequest) (draws : Draws)
  | compact (scope : String) (through snapshot : Nat) (threadId : Option String)
  | purge (threadId : String)
  | commit (operation : Operation) (draws : CommitDraws) (failure : Option (Nat × Failure))
  | reconcile (isFull : String → Bool) (failure : Option (Nat × Failure))
  | restart

/-- The state a call leaves, however it ends. -/
def Outbox.perform (env : Environment) (s : Outbox) : Call → Outbox
  | .append request draws => (appendEvent env request draws s).2
  | .compact scope through snapshot threadId =>
    (transact (fun db => compact env db scope through snapshot threadId) s).2
  | .purge threadId => (transact (fun db => purgeThread env db threadId) s).2
  | .commit operation draws failure =>
    (commitOperation env operation draws { s with failure := failure }).2
  | .reconcile isFull failure => (Journal.reconcile env isFull { s with failure := failure }).2
  | .restart => { s with reconciled := false }

def Outbox.run (env : Environment) (s : Outbox) (calls : List Call) : Outbox :=
  calls.foldl (Outbox.perform env) s

theorem Outbox.run_invariant {env : Environment} {I : Outbox → Prop} {C : Call → Prop}
    (hstep : ∀ s call, C call → I s → I (s.perform env call)) {s : Outbox} (hs : I s)
    {calls : List Call} (hc : ∀ call ∈ calls, C call) : I (s.run env calls) := by
  induction calls generalizing s with
  | nil => exact hs
  | cons call rest ih =>
    exact ih (hstep s call (hc call List.mem_cons_self) hs)
      fun c hm => hc c (List.mem_cons_of_mem call hm)

/-- Edits of the tables keep the property, once what they insert is recorded. -/
def KeepsEdits (env : Environment) (A : AppendRequest → Prop) (I : Outbox → Prop) : Prop :=
  ∀ s added db, I s → Edits env A s.db added db →
    I { s with db := db, journaled := s.journaled ++ added }

section

variable {env : Environment} {A : AppendRequest → Prop} {I : Outbox → Prop} {s : Outbox}
  (h : KeepsEdits env A I)

include h

theorem KeepsEdits.transact {α : Type} {t : Database → Except JournalError (α × Database)}
    (ht : ∀ db a db', t db = .ok (a, db') → Edits env A db [] db') : Keeps I (transact t) := by
  refine triple_transact (fun s a db hs hdb => ?_) fun s _ hs _ => hs
  have hedited := h s _ db hs (ht s.db a db hdb)
  rwa [List.append_nil] at hedited

theorem KeepsEdits.append {request : AppendRequest} (ha : A request) (draws : Draws) (hs : I s) :
    I (s.perform env (.append request draws)) := by
  have hkeeps : Keeps I (appendEvent env request draws) := by
    refine Triple.bind (Q := fun result s => I { s with
      journaled := s.journaled ++ if result.2 then [Insertion.mk request result.1] else [] })
      (triple_transact (fun s result db hs happend => ?_) fun s _ hs _ => hs) fun result => ?_
    · obtain ⟨⟨record, inserted, next⟩, hok, hr⟩ := except_map_eq_ok.mp happend
      cases hr
      exact h s _ next hs (append_edits ha hok)
    · exact Triple.bind (Triple.modify fun s hs => hs) fun _ => Triple.pure fun s hs => hs
  exact hkeeps.state hs

theorem KeepsEdits.compact {scope : String} {through snapshot : Nat} {threadId : Option String}
    (hs : I s) : I (s.perform env (.compact scope through snapshot threadId)) :=
  (h.transact fun _ _ _ hdb => compact_edits hdb).state hs

theorem KeepsEdits.purge {threadId : String} (hs : I s) : I (s.perform env (.purge threadId)) :=
  (h.transact fun _ _ _ hdb => purgeThread_edits hdb).state hs

end

def lastDocument (operations : List Envelope) (path : String) : Option Document :=
  ((operations.flatMap Envelope.writes).reverse.find? fun w => w.relativePath = path).map
    EnvelopeWrite.document

/-- A file after some operations were published over `initial`. -/
def publishedFile (initial : Dict String StateFile) (operations : List Envelope)
    (path : String) : Option StateFile :=
  match lastDocument operations path with
  | some document => some (.marked document true)
  | none => initial.get? path

theorem lastDocument_append (operations : List Envelope) (e : Envelope) (path : String) :
    lastDocument (operations ++ [e]) path =
      ((e.writes.reverse.find? fun w => w.relativePath = path).map EnvelopeWrite.document).or
        (lastDocument operations path) := by
  unfold lastDocument
  rw [List.flatMap_append, List.reverse_append, List.find?_append]
  simp only [List.flatMap_cons, List.flatMap_nil, List.append_nil]
  cases e.writes.reverse.find? fun w => decide (w.relativePath = path) with
  | none => rfl
  | some w => rfl

theorem publishedFile_append {initial : Dict String StateFile} {operations : List Envelope}
    {e : Envelope} {s : Outbox} {path : String} (hall : ∀ w ∈ e.writes, Holds s w)
    (h : s.files.get? path = publishedFile initial operations path ∨
      ∃ w ∈ e.writes, w.relativePath = path ∧ Holds s w) :
    s.files.get? path = publishedFile initial (operations ++ [e]) path := by
  unfold publishedFile
  rw [lastDocument_append]
  cases hf : e.writes.reverse.find? fun w => decide (w.relativePath = path) with
  | some w =>
    have hm := List.mem_reverse.mp (List.mem_of_find?_eq_some hf)
    have hpath : w.relativePath = path := by simpa using List.find?_some hf
    rw [← hpath]
    exact hall w hm
  | none =>
    rcases h with h | ⟨w, hm, hpath, _⟩
    · exact h
    · have hn := List.find?_eq_none.mp hf w (List.mem_reverse.mpr hm)
      simp [hpath] at hn

def requestsOf (e : Envelope) : List AppendRequest :=
  e.events.map (eventRequest e.operationId)

/-- The events of an operation stand together in the journal. -/
def Contiguous (journaled : List Insertion) (e : Envelope) : Prop :=
  ∃ before block after, journaled = before ++ block ++ after ∧
    block.map Insertion.request = requestsOf e

/-- The operations in `finished` are published, those in `waiting` are pending; the flag
vouches that none is. -/
structure Stage (env : Environment) (initial : Dict String StateFile)
    (finished waiting : List Envelope) (s : Outbox) : Prop where
  books : Books env s.prepared s.db
  quiet : Quiet s.db
  history : History env s.journaled s.db
  prepared : s.prepared = finished ++ waiting
  pending : pendingEnvelopes s.db = waiting
  journaled : (s.journaled.filter fun i => isOutboxKey i.request.operationKey).map
    Insertion.request = finished.flatMap requestsOf
  contiguous : ∀ e ∈ finished, Contiguous s.journaled e
  files : ∀ path, s.files.get? path = publishedFile initial finished path ∨
    ∃ e ∈ waiting, ∃ w ∈ e.writes, w.relativePath = path ∧ Holds s w
  flag : s.reconciled = true → waiting = []

def Durable (env : Environment) (initial : Dict String StateFile) (s : Outbox) : Prop :=
  ∃ finished waiting, Stage env initial finished waiting s ∧ waiting.length ≤ 1

def Settled (env : Environment) (initial : Dict String StateFile) (s : Outbox) : Prop :=
  ∃ finished, Stage env initial finished [] s

section

variable {env : Environment} {initial : Dict String StateFile} {finished waiting : List Envelope}
  {e : Envelope} {isFull : String → Bool} {s : Outbox}

theorem Stage.of_eq {t : Outbox} (h : Stage env initial finished waiting s) (hd : t.db = s.db)
    (hf : t.files = s.files) (hp : t.prepared = s.prepared) (hj : t.journaled = s.journaled)
    (hr : t.reconciled = true → waiting = []) : Stage env initial finished waiting t := by
  obtain ⟨db, files, reconciled, failure, prepared, journaled⟩ := t
  cases hd
  cases hf
  cases hp
  cases hj
  exact ⟨h.books, h.quiet, h.history, h.prepared, h.pending, h.journaled, h.contiguous, h.files,
    hr⟩

theorem Stage.replace {w : EnvelopeWrite} (h : Stage env initial finished [e] s)
    (hw : w ∈ e.writes) : Stage env initial finished [e]
      { s with files := s.files.set w.relativePath (.marked w.document true) } where
  books := h.books
  quiet := h.quiet
  history := h.history
  prepared := h.prepared
  pending := h.pending
  journaled := h.journaled
  contiguous := h.contiguous
  files path := by
    by_cases hp : path = w.relativePath
    · refine .inr ⟨e, List.mem_cons_self, w, hw, hp.symm, ?_⟩
      exact Dict.get?_set_self _ _ _
    have hkeep := Dict.get?_set_of_ne s.files (.marked w.document true) hp
    rcases h.files path with hf | ⟨e', he', w', hw', hpath, hh⟩
    · exact .inl (hkeep.trans hf)
    refine .inr ⟨e', he', w', hw', hpath, ?_⟩
    unfold Holds at hh ⊢
    rw [hpath] at hh ⊢
    exact hkeep.trans hh
  flag := h.flag

theorem Stage.with_failure {failure : Option (Nat × Failure)}
    (h : Stage env initial finished waiting s) :
    Stage env initial finished waiting { s with failure := failure } :=
  h.of_eq rfl rfl rfl rfl h.flag

theorem Contiguous.append {journaled : List Insertion} (h : Contiguous journaled e)
    (more : List Insertion) : Contiguous (journaled ++ more) e := by
  obtain ⟨before, block, after, rfl, hblock⟩ := h
  exact ⟨before, block, after ++ more, by rw [List.append_assoc], hblock⟩

theorem Stage.edits {A : AppendRequest → Prop} {added : List Insertion} {db : Database}
    (hA : ∀ r, A r → isOutboxKey r.operationKey = false)
    (h : Stage env initial finished waiting s) (hedits : Edits env A s.db added db) :
    Stage env initial finished waiting
      { s with db := db, journaled := s.journaled ++ added } where
  books := h.books.edits (U := fun _ => False)
    (fun r hr id i hkey => by
      have hout := hA r hr
      rw [hkey, isOutboxKey_outboxKey] at hout
      cases hout)
    (fun _ hf => hf.elim) hedits
  quiet := h.quiet.edits hA hedits
  history := h.history.leaves hedits.leaves
  prepared := h.prepared
  pending := hedits.leaves.pending.trans h.pending
  journaled := by
    have hnone : added.filter (fun i => isOutboxKey i.request.operationKey) = [] := by
      refine List.filter_eq_nil_iff.mpr fun i hi => ?_
      rw [hA _ (hedits.admitted i hi)]
      exact Bool.false_ne_true
    rw [List.filter_append, hnone, List.append_nil, h.journaled]
  contiguous e he := (h.contiguous e he).append added
  files := h.files
  flag := h.flag

theorem Stage.prepare {fingerprint : String} (h : Stage env initial finished [] s)
    (hkeyed : WellKeyed e) (hprint : Prints env fingerprint e)
    (hnone : s.db.outbox.get? e.operationId = none)
    (hunexpired : outboxTombstoneKey env e.operationId ∉ s.db.tombstones) :
    Stage env initial finished [e]
      { s with
        db := insertPending s.db fingerprint e
        reconciled := false
        prepared := s.prepared ++ [e] } := by
  have hprepared : s.prepared = finished := by
    have hp := h.prepared
    rwa [List.append_nil] at hp
  obtain ⟨hbooks, hquiet⟩ := h.books.prepare h.quiet hkeyed hprint hnone hunexpired
  refine ⟨hbooks, hquiet, h.history.of_eq rfl rfl rfl rfl, by rw [hprepared], ?_, h.journaled,
    h.contiguous, fun path => .inl ?_, fun hr => by cases hr⟩
  · exact pendingEnvelopes_insertPending h.pending hnone
  rcases h.files path with hf | ⟨_, hm, _⟩
  · exact hf
  · cases hm

/-- The last transaction of an operation whose files are in place. -/
theorem Stage.finalize {isFull : String → Bool} {results : List (Record × Bool)} {db : Database}
    (h : Stage env initial finished [e] s) (hall : ∀ w ∈ e.writes, Holds s w)
    (hfin : Journal.finalize env isFull s.db e = .ok (results, db)) :
    Stage env initial (finished ++ [e]) []
      { s with
        db := db
        journaled := s.journaled ++ insertionsOf e.operationId e.events results } := by
  have hmem : e ∈ pendingEnvelopes s.db := h.pending ▸ List.mem_cons_self
  obtain ⟨he, hp⟩ := h.books.isPending hmem
  obtain ⟨hbooks, hquiet, hrequests⟩ := h.books.finalize h.quiet he hp hfin
  have hkeyed := h.books.keyed e he
  refine ⟨hbooks, hquiet, h.history.finalize hfin, by rw [List.append_nil]; exact h.prepared, ?_,
    ?_, ?_, fun path => .inl ?_, fun _ => rfl⟩
  · exact pendingEnvelopes_finalize h.books h.pending hfin
  · have hall' : (insertionsOf e.operationId e.events results).filter
        (fun i => isOutboxKey i.request.operationKey) =
          insertionsOf e.operationId e.events results := by
      refine List.filter_eq_self.mpr fun i hi => ?_
      have hm := List.mem_map_of_mem (f := Insertion.request) hi
      rw [hrequests] at hm
      obtain ⟨event, hev, hreq⟩ := List.mem_map.mp hm
      obtain ⟨j, hj⟩ := hkeyed.mem hev
      rw [← hreq]
      change isOutboxKey event.operationKey = true
      rw [hj, isOutboxKey_outboxKey]
    rw [List.filter_append, hall', List.map_append, h.journaled, hrequests, List.flatMap_append]
    simp only [List.flatMap_cons, List.flatMap_nil, List.append_nil]
    rfl
  · intro e' he'
    rcases List.mem_append.mp he' with he' | he'
    · exact (h.contiguous e' he').append _
    rw [List.mem_singleton.mp he']
    exact ⟨s.journaled, insertionsOf e.operationId e.events results, [],
      (List.append_nil _).symm, hrequests⟩
  · refine publishedFile_append (s := s) hall ?_
    rcases h.files path with hf | ⟨e', hm, w, hw, hpath, hh⟩
    · exact .inl hf
    · rw [List.mem_singleton.mp hm] at hw
      exact .inr ⟨w, hw, hpath, hh⟩

theorem Stage.durable (h : Stage env initial finished waiting s) (hw : waiting.length ≤ 1) :
    Durable env initial s := ⟨finished, waiting, h, hw⟩

theorem Settled.durable (h : Settled env initial s) : Durable env initial s := by
  obtain ⟨finished, hs⟩ := h
  exact hs.durable (Nat.zero_le _)

theorem stage_withstands (env : Environment) (initial : Dict String StateFile) :
    Withstands env (fun _ => True) fun waiting s =>
      ∃ finished, Stage env initial finished waiting s where
  pending waiting s hs := by
    obtain ⟨finished, hs⟩ := hs
    exact hs.pending
  flag waiting s hs := by
    obtain ⟨finished, hs⟩ := hs
    exact hs.flag
  failure waiting s failure hs := by
    obtain ⟨finished, hs⟩ := hs
    exact ⟨finished, hs.with_failure⟩
  clear waiting s hs := by
    obtain ⟨finished, hs⟩ := hs
    exact ⟨finished, hs.of_eq rfl rfl rfl rfl fun h => absurd h Bool.false_ne_true⟩
  settle s hs := by
    obtain ⟨finished, hs⟩ := hs
    exact ⟨finished, hs.of_eq rfl rfl rfl rfl fun _ => rfl⟩
  replace e w s hs hw := by
    obtain ⟨finished, hs⟩ := hs
    exact ⟨finished, hs.replace hw⟩
  finalize e s isFull results db hs hall hfin := by
    obtain ⟨finished, hs⟩ := hs
    exact ⟨finished ++ [e], hs.finalize hall hfin⟩
  prepare e fingerprint s hs _ hkeyed hprint hnone hunexpired := by
    obtain ⟨finished, hs⟩ := hs
    exact ⟨finished, hs.prepare hkeyed hprint hnone hunexpired⟩

theorem atMostOne_iff :
    AtMostOne (fun waiting s => ∃ finished, Stage env initial finished waiting s) s ↔
    Durable env initial s := by
  constructor
  · rintro ⟨waiting, ⟨finished, hs⟩, hw⟩
    exact ⟨finished, waiting, hs, hw⟩
  · rintro ⟨finished, waiting, hs, hw⟩
    exact ⟨waiting, ⟨finished, hs⟩, hw⟩

theorem triple_reconcile : Triple (Durable env initial) (Journal.reconcile env isFull)
    (fun _ => Settled env initial) (fun _ => Durable env initial) :=
  (stage_withstands env initial).reconcile.weaken (fun _ hs => atMostOne_iff.mpr hs)
    (fun _ _ hs => hs) fun _ _ hs => atMostOne_iff.mp hs

theorem triple_ensureReconciled : Triple (Durable env initial) (ensureReconciled env isFull)
    (fun _ => Settled env initial) (fun _ => Durable env initial) :=
  (stage_withstands env initial).ensureReconciled.weaken (fun _ hs => atMostOne_iff.mpr hs)
    (fun _ _ hs => hs) fun _ _ hs => atMostOne_iff.mp hs

theorem keeps_commitOperation (operation : Operation) (draws : CommitDraws) :
    Keeps (Durable env initial) (commitOperation env operation draws) :=
  ((stage_withstands env initial).commitOperation operation draws fun _ _ _ => trivial).weaken
    (fun _ hs => atMostOne_iff.mpr hs) (fun _ _ hs => Settled.durable hs)
    fun _ _ hs => atMostOne_iff.mp hs

theorem durable_keepsEdits :
    KeepsEdits env (fun r => isOutboxKey r.operationKey = false) (Durable env initial) := by
  rintro s added db ⟨finished, waiting, hs, hw⟩ hedits
  exact (hs.edits (fun _ hr => hr) hedits).durable hw

end

def Call.RespectsKeys : Call → Prop
  | .append request _ => isOutboxKey request.operationKey = false
  | .compact .. | .purge .. | .commit .. | .reconcile .. | .restart => True

instance : DecidablePred Call.RespectsKeys := fun call => by
  cases call <;> unfold Call.RespectsKeys <;> infer_instance

theorem Durable.perform {env : Environment} {initial : Dict String StateFile} {s : Outbox}
    {call : Call} (hc : call.RespectsKeys) (h : Durable env initial s) :
    Durable env initial (s.perform env call) := by
  have hfailure : ∀ failure, Durable env initial { s with failure := failure } := by
    intro failure
    obtain ⟨finished, waiting, hs, hw⟩ := h
    exact hs.with_failure.durable hw
  cases call with
  | append request draws => exact durable_keepsEdits.append hc draws h
  | compact scope through snapshot threadId => exact durable_keepsEdits.compact h
  | purge threadId => exact durable_keepsEdits.purge h
  | commit operation draws failure =>
    exact (keeps_commitOperation operation draws).state (hfailure failure)
  | reconcile isFull failure =>
    exact (triple_reconcile.returns (fun _ _ hs => hs.durable)).state (hfailure failure)
  | restart =>
    obtain ⟨finished, waiting, hs, hw⟩ := h
    exact (hs.of_eq (t := { s with reconciled := false }) rfl rfl rfl rfl
      fun hr => absurd hr Bool.false_ne_true).durable hw

theorem durable_initial (env : Environment) (files : Dict String StateFile) :
    Durable env files (Outbox.initial files) := by
  obtain ⟨hbooks, hquiet⟩ := books_empty env
  refine ⟨[], [], ⟨hbooks, hquiet, history_empty env, rfl, rfl, rfl, ?_, fun _ => .inl rfl,
    fun _ => rfl⟩, Nat.zero_le _⟩
  intro e he
  cases he

theorem Outbox.run_durable (env : Environment) (files : Dict String StateFile)
    {calls : List Call} (hc : ∀ call ∈ calls, call.RespectsKeys) :
    Durable env files ((Outbox.initial files).run env calls) :=
  Outbox.run_invariant (fun _ _ hcall hs => hs.perform hcall) (durable_initial env files) hc

/-- Every prepared operation is journaled once, in order, and the files are those of the
last operations that wrote them. -/
structure Published (files : Dict String StateFile) (s : Outbox) : Prop where
  journaled : (s.journaled.filter fun i => isOutboxKey i.request.operationKey).map
    Insertion.request = s.prepared.flatMap requestsOf
  contiguous : ∀ e ∈ s.prepared, Contiguous s.journaled e
  files : ∀ path, s.files.get? path = publishedFile files s.prepared path

def Visible (s : Outbox) (event : EnvelopeEvent) : Prop :=
  (∃ i ∈ s.journaled, i.request.operationKey = event.operationKey) ∨
    ∃ row ∈ s.db.events, row.operationKey = event.operationKey

/-- A document of `e` is in place, or one that a later operation put there. -/
def InPlace (s : Outbox) (e : Envelope) (later : List Envelope) (w : EnvelopeWrite) : Prop :=
  ∃ e' ∈ e :: later, ∃ w' ∈ e'.writes, w'.relativePath = w.relativePath ∧ Holds s w'

def WritesFirst (s : Outbox) : Prop :=
  ∀ earlier e later, s.prepared = earlier ++ e :: later →
    ∀ event ∈ e.events, Visible s event → ∀ w ∈ e.writes, InPlace s e later w

/-- Nothing is prepared or journaled twice, and the journal has no gap. -/
structure Once (s : Outbox) : Prop where
  operations : (s.prepared.map Envelope.operationId).Nodup
  keys : (s.journaled.map fun i => i.request.operationKey).Nodup
  cursors : s.journaled.map (fun i => i.record.cursor) = List.range' 1 s.db.lastCursor

section

variable {env : Environment} {initial : Dict String StateFile} {finished waiting : List Envelope}
  {e : Envelope} {s : Outbox}

theorem Stage.visible (h : Stage env initial finished waiting s) {event : EnvelopeEvent}
    (hv : Visible s event) : ∃ i ∈ s.journaled, i.request.operationKey = event.operationKey := by
  rcases hv with hi | ⟨row, hrow, hkey⟩
  · exact hi
  obtain ⟨entry, hentry, _⟩ := h.books.recorded row hrow
  obtain ⟨i, hi, hsame, _⟩ := h.history.rows _ entry hentry
  exact ⟨i, hi, hsame.trans hkey⟩

theorem Stage.finished_of_visible (h : Stage env initial finished waiting s)
    (he : e ∈ s.prepared) {event : EnvelopeEvent} (hev : event ∈ e.events)
    (hv : Visible s event) : e ∈ finished := by
  obtain ⟨i, hi, hkey⟩ := h.visible hv
  obtain ⟨j, hj⟩ := (h.books.keyed e he).mem hev
  have hm : i.request ∈ finished.flatMap requestsOf := by
    rw [← h.journaled]
    refine List.mem_map_of_mem (List.mem_filter.mpr ⟨hi, ?_⟩)
    rw [hkey, hj, isOutboxKey_outboxKey]
  obtain ⟨e', he', hr⟩ := List.mem_flatMap.mp hm
  obtain ⟨event', hev', hreq⟩ := List.mem_map.mp hr
  have hprepared : e' ∈ s.prepared := h.prepared ▸ List.mem_append_left _ he'
  obtain ⟨j', hj'⟩ := (h.books.keyed e' hprepared).mem hev'
  have hsame : outboxKey e'.operationId j' = outboxKey e.operationId j := by
    rw [← hj', ← hj, ← hkey, ← hreq]
    rfl
  rwa [← h.books.unique hprepared he (outboxKey_inj hsame).1]

theorem lastDocument_after (earlier later : List Envelope) {w : EnvelopeWrite}
    (hw : w ∈ e.writes) : ∃ e' ∈ e :: later, ∃ w' ∈ e'.writes,
      w'.relativePath = w.relativePath ∧
        lastDocument (earlier ++ e :: later) w.relativePath = some w'.document := by
  unfold lastDocument
  rw [List.flatMap_append, List.reverse_append, List.find?_append]
  cases hf : ((e :: later).flatMap Envelope.writes).reverse.find? fun w' =>
      decide (w'.relativePath = w.relativePath) with
  | none =>
    have hm : w ∈ ((e :: later).flatMap Envelope.writes).reverse :=
      List.mem_reverse.mpr (List.mem_flatMap.mpr ⟨e, List.mem_cons_self, hw⟩)
    have hn := List.find?_eq_none.mp hf w hm
    simp at hn
  | some w' =>
    have hm := List.mem_reverse.mp (List.mem_of_find?_eq_some hf)
    obtain ⟨e', he', hw'⟩ := List.mem_flatMap.mp hm
    exact ⟨e', he', w', hw', by simpa using List.find?_some hf, rfl⟩

theorem Stage.writesFirst (h : Stage env initial finished waiting s) : WritesFirst s := by
  intro earlier e later hsplit event hev hv w hmem
  have he : e ∈ s.prepared := hsplit ▸ List.mem_append_right _ List.mem_cons_self
  have hfin := h.finished_of_visible he hev hv
  obtain ⟨before, rest, hparts⟩ := List.append_of_mem hfin
  -- `e` occurs once among the prepared operations
  have hsame : earlier = before ∧ later = rest ++ waiting := by
    have hnodup := List.Nodup.of_map _ h.books.distinct
    have hboth : earlier ++ e :: later = before ++ e :: (rest ++ waiting) := by
      rw [← hsplit, h.prepared, hparts, List.append_assoc, List.cons_append]
    rw [hsplit] at hnodup
    have hno : e ∉ earlier := fun hm =>
      (List.nodup_append.mp hnodup).2.2 e hm e List.mem_cons_self rfl
    rw [hboth] at hnodup
    have hno' : e ∉ before := fun hm =>
      (List.nodup_append.mp hnodup).2.2 e hm e List.mem_cons_self rfl
    exact Records.split_at_separator hno hno' hboth
  obtain ⟨rfl, rfl⟩ := hsame
  rcases h.files w.relativePath with hf | ⟨e', he', w', hw', hpath, hh⟩
  · obtain ⟨e', he', w', hw', hpath, hlast⟩ := lastDocument_after earlier rest hmem
    have hmem' : e' ∈ e :: (rest ++ waiting) := by
      rcases List.mem_cons.mp he' with rfl | he'
      · exact List.mem_cons_self
      · exact List.mem_cons_of_mem _ (List.mem_append_left _ he')
    refine ⟨e', hmem', w', hw', hpath, ?_⟩
    unfold Holds
    rw [hpath, hf, hparts]
    unfold publishedFile
    rw [hlast]
  · exact ⟨e', List.mem_cons_of_mem _ (List.mem_append_right _ he'), w', hw', hpath, hh⟩

theorem Stage.published (h : Stage env initial finished [] s) : Published initial s := by
  have hp : s.prepared = finished := by
    have hp := h.prepared
    rwa [List.append_nil] at hp
  refine ⟨by rw [hp, h.journaled], by rw [hp]; exact h.contiguous, fun path => ?_⟩
  rw [hp]
  rcases h.files path with hf | ⟨_, hm, _⟩
  · exact hf
  · cases hm

end

/-- Wherever the calls of a run fail: when no operation is pending all are published, and
in every state an event is visible only with the documents of its operation. -/
theorem Outbox.run_published (env : Environment) (files : Dict String StateFile)
    (calls : List Call) (hc : ∀ call ∈ calls, call.RespectsKeys) :
    (pendingEnvelopes ((Outbox.initial files).run env calls).db = [] →
        Published files ((Outbox.initial files).run env calls)) ∧
      WritesFirst ((Outbox.initial files).run env calls) ∧
      Once ((Outbox.initial files).run env calls) := by
  obtain ⟨finished, waiting, hs, hw⟩ := Outbox.run_durable env files hc
  refine ⟨fun hnone => ?_, hs.writesFirst, hs.books.distinct, hs.history.distinct,
    hs.history.cursors⟩
  have hempty := hs.pending.symm.trans hnone
  subst hempty
  exact hs.published

def samplePayload (key : String) (value : Nat) : Payload := [(key, .int value)]

def sampleOperation (operationId : String) (revision : Nat) : Operation where
  operationId := operationId
  writes := [⟨"runtime-state.json", revision, samplePayload "runs" revision⟩,
    ⟨"threads/1.json", revision, samplePayload "messages" revision⟩]
  events := [⟨"thread", "codex.event", .obj [], some "1", none⟩,
    ⟨"thread", "codex.event", .obj [], some "1", none⟩]

def sampleCommitDraws : CommitDraws := ⟨fun _ => "2030-01-01T00:00:00Z", fun _ => false⟩

/-- A commit dies after its first file, its retry before the append, a third operation
after its own append; then a new process reconciles and the last one is retried. -/
def crashingCalls : List Call :=
  [.commit (sampleOperation "a" 1) sampleCommitDraws (some (4, .crash)), .restart,
    .commit (sampleOperation "a" 1) sampleCommitDraws (some (6, .crash)),
    .commit (sampleOperation "b" 2) sampleCommitDraws (some (16, .crash)), .restart,
    .reconcile (fun _ => false) none, .commit (sampleOperation "b" 2) sampleCommitDraws none]

theorem Outbox.run_published_crashingCalls :
    let s := (Outbox.initial .empty).run sampleEnvironment crashingCalls
    pendingEnvelopes s.db = [] ∧ s.prepared.map Envelope.operationId = ["a", "b"] ∧
      s.journaled.map (fun i => i.request.operationKey) =
        ["outbox:a:0", "outbox:a:1", "outbox:b:0", "outbox:b:1"] ∧
      Published .empty s ∧ WritesFirst s ∧ Once s := by
  have hnone : pendingEnvelopes
      ((Outbox.initial .empty).run sampleEnvironment crashingCalls).db = [] := by decide +kernel
  obtain ⟨hp, hw, ho⟩ := Outbox.run_published sampleEnvironment .empty crashingCalls (by decide)
  exact ⟨hnone, by decide +kernel, by decide +kernel, hp hnone, hw, ho⟩

end CodexBridge.Journal
