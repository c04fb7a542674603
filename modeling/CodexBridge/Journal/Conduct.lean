import CodexBridge.Journal.Books

/-! # What a call of the outbox keeps

A reconciliation and a commit are the same parts in turn: a failure point, a file replaced
for the pending operation, its last transaction, the row of the next one. A property that
survives each part survives the call wherever it fails.
-/

namespace CodexBridge.Journal

open Effect

def Holds (s : Outbox) (w : EnvelopeWrite) : Prop :=
  s.files.get? w.relativePath = some (.marked w.document true)

/-! ## The pending operations -/

section

variable {env : Environment} {prepared : List Envelope} {db : Database} {e : Envelope}

theorem Books.isPending (h : Books env prepared db) (he : e ∈ pendingEnvelopes db) :
    e ∈ prepared ∧ Journal.isPending db e.operationId = true := by
  obtain ⟨row, hrow, hp⟩ := List.mem_filterMap.mp he
  obtain ⟨id, hget⟩ := (Dict.mem_values_iff _ _).mp hrow
  obtain ⟨e', he', hid, hsame, _⟩ := h.known id row hget
  have heq := hsame e hp
  rw [heq]
  refine ⟨he', isPending_iff.mpr ⟨row, ?_, ?_⟩⟩
  · rw [hid]
    exact hget
  · rw [hp]
    simp

theorem Books.of_isPending (h : Books env prepared db) {id : String}
    (hp : Journal.isPending db id = true) :
    ∃ e ∈ pendingEnvelopes db, e.operationId = id := by
  obtain ⟨row, hget, hne⟩ := isPending_iff.mp hp
  obtain ⟨e, he⟩ := Option.ne_none_iff_exists'.mp hne
  obtain ⟨e', _, hid, hsame, _⟩ := h.known id row hget
  refine ⟨e, List.mem_filterMap.mpr ⟨row, Dict.mem_values_of_get? hget, he⟩, ?_⟩
  rw [hsame e he]
  exact hid

theorem pendingEnvelopes_insertPending {fingerprint : String} (hpending : pendingEnvelopes db = [])
    (hnone : db.outbox.get? e.operationId = none) :
    pendingEnvelopes (insertPending db fingerprint e) = [e] := by
  have hvalues := Dict.values_set_of_none db.outbox hnone
    (⟨fingerprint, some e, !e.events.isEmpty⟩ : OutboxRow)
  change (db.outbox.set _ _).values.filterMap OutboxRow.pending = [e]
  rw [hvalues, List.filterMap_append]
  change pendingEnvelopes db ++ [e] = [e]
  rw [hpending, List.nil_append]

theorem pendingEnvelopes_finalize {isFull : String → Bool} {results : List (Record × Bool)}
    {db' : Database} (h : Books env prepared db) (hpending : pendingEnvelopes db = [e])
    (hfin : Journal.finalize env isFull db e = .ok (results, db')) : pendingEnvelopes db' = [] := by
  refine List.eq_nil_iff_forall_not_mem.mpr fun p hm => ?_
  obtain ⟨row, hrow, hpend⟩ := List.mem_filterMap.mp hm
  obtain ⟨id, hget⟩ := (Dict.mem_values_iff _ _).mp hrow
  obtain ⟨appended, hfirst, hlast⟩ := finalize_leaves hfin
  have hmarked := hlast.operations id row hget
  rw [markApplied_get?] at hmarked
  split at hmarked
  · obtain ⟨old, _, rfl⟩ := Option.map_eq_some_iff.mp hmarked
    cases hpend
  rename_i hother
  have hold := hfirst.operations id row hmarked
  obtain ⟨e', hm', hid⟩ := h.of_isPending (isPending_iff.mpr ⟨row, hold, by rw [hpend]; simp⟩)
  rw [hpending, List.mem_singleton] at hm'
  rw [hm'] at hid
  exact hother hid.symm

end

/-! ## Parts of a call -/

theorem triple_point {I : Outbox → Prop}
    (hI : ∀ s failure, I s → I { s with failure := failure }) : Keeps I point := by
  intro s hs
  unfold point
  cases s.failure with
  | none =>
    refine ⟨fun a t h => ?_, fun e t h => ?_⟩
    · cases h
      exact hs
    · cases h
  | some ahead =>
    obtain ⟨n, failure⟩ := ahead
    cases n with
    | zero =>
      refine ⟨fun a t h => ?_, fun e t h => ?_⟩
      · cases h
      · cases h
        exact hI s none hs
    | succ n =>
      refine ⟨fun a t h => ?_, fun e t h => ?_⟩
      · cases h
        exact hI s _ hs
      · cases h

theorem triple_examineWrites {I : Outbox → Prop}
    (hI : ∀ s failure, I s → I { s with failure := failure }) (id : String)
    (writes : List EnvelopeWrite) :
    Triple I (examineWrites id writes) (fun ws s => (∀ w ∈ ws, w ∈ writes) ∧ I s) (fun _ => I) := by
  induction writes with
  | nil =>
    refine Triple.pure fun s hs => ⟨fun w hw => ?_, hs⟩
    cases hw
  | cons write rest ih =>
    refine Triple.bind (triple_point hI) fun _ => ?_
    refine Triple.bind Keeps.read fun file => ?_
    refine Triple.bind Keeps.lift fun replaces => ?_
    refine Triple.bind ih fun others => Triple.of_pure fun hsub => ?_
    refine Triple.pure fun s hs => ⟨fun w hw => ?_, hs⟩
    split at hw
    · rcases List.mem_cons.mp hw with rfl | hw
      · exact List.mem_cons_self
      · exact List.mem_cons_of_mem _ (hsub w hw)
    · exact List.mem_cons_of_mem _ (hsub w hw)

theorem triple_transact {α : Type} {t : Database → Except JournalError (α × Database)}
    {P : Outbox → Prop} {Q : α → Outbox → Prop} {E : JournalError → Outbox → Prop}
    (hok : ∀ s a db, P s → t s.db = .ok (a, db) → Q a { s with db := db })
    (herr : ∀ s e, P s → t s.db = .error e → E e s) : Triple P (transact t) Q E := by
  intro s hs
  unfold transact
  cases ht : t s.db with
  | error e =>
    refine ⟨fun a u h => ?_, fun e' u h => ?_⟩
    · cases h
    · cases h
      exact herr s e hs ht
  | ok r =>
    refine ⟨fun a u h => ?_, fun e u h => ?_⟩
    · cases h
      exact hok s r.1 r.2 hs ht
    · cases h

/-- A property of the component, given the pending operations, that every part of a call
keeps; `A` says which operations are admitted. -/
structure Withstands (env : Environment) (A : Envelope → Prop)
    (J : List Envelope → Outbox → Prop) : Prop where
  pending : ∀ waiting s, J waiting s → pendingEnvelopes s.db = waiting
  flag : ∀ waiting s, J waiting s → s.reconciled = true → waiting = []
  failure : ∀ waiting s failure, J waiting s → J waiting { s with failure := failure }
  clear : ∀ waiting s, J waiting s → J waiting { s with reconciled := false }
  settle : ∀ s, J [] s → J [] { s with reconciled := true }
  replace : ∀ e w s, J [e] s → w ∈ e.writes →
    J [e] { s with files := s.files.set w.relativePath (.marked w.document true) }
  finalize : ∀ e s isFull results db, J [e] s → (∀ w ∈ e.writes, Holds s w) →
    Journal.finalize env isFull s.db e = .ok (results, db) →
      J [] { s with
        db := db
        journaled := s.journaled ++ insertionsOf e.operationId e.events results }
  prepare : ∀ e fingerprint s, J [] s → A e → WellKeyed e → Prints env fingerprint e →
    s.db.outbox.get? e.operationId = none →
      outboxTombstoneKey env e.operationId ∉ s.db.tombstones →
        J [e] { s with
          db := insertPending s.db fingerprint e
          reconciled := false
          prepared := s.prepared ++ [e] }

def AtMostOne (J : List Envelope → Outbox → Prop) (s : Outbox) : Prop :=
  ∃ waiting, J waiting s ∧ waiting.length ≤ 1

theorem AtMostOne.none {J : List Envelope → Outbox → Prop} {s : Outbox} (h : J [] s) :
    AtMostOne J s := ⟨[], h, Nat.zero_le 1⟩

theorem AtMostOne.one {J : List Envelope → Outbox → Prop} {s : Outbox} {e : Envelope}
    (h : J [e] s) : AtMostOne J s := ⟨[e], h, le_rfl⟩

section

variable {env : Environment} {A : Envelope → Prop} {J : List Envelope → Outbox → Prop}
  {e : Envelope} {isFull : String → Bool}

section

variable (h : Withstands env A J)

include h

theorem Withstands.point (waiting : List Envelope) :
    Keeps (J waiting) point :=
  triple_point fun s failure hs => h.failure waiting s failure hs

/-- `_apply_writes` leaves every document of the operation in place, or fails. -/
theorem Withstands.applyWrites :
    Triple (J [e]) (applyWrites e) (fun _ s => J [e] s ∧ ∀ w ∈ e.writes, Holds s w)
      (fun _ => J [e]) := by
  refine Triple.bind (triple_examineWrites (fun s failure hs => h.failure [e] s failure hs) _ _)
    fun pending => Triple.of_pure fun hsub => ?_
  refine Triple.bind (h.point [e]) fun _ => ?_
  have hreplace : Keeps (J [e]) (forEach pending fun write => do
      replaceState write
      Journal.point) := by
    refine Keeps.forEach fun w hw => Keeps.bind ?_ fun _ => h.point [e]
    exact Keeps.modify fun s hs => h.replace e w s hs (hsub w hw)
  refine Triple.bind hreplace fun _ => ?_
  -- every file read again holds its document, and reading changes none
  have hconfirm : Triple (fun s => J [e] s ∧ ∀ w ∈ ([] : List _), Holds s w)
      (forEach e.writes confirmWrite) (fun _ s => J [e] s ∧ ∀ w ∈ e.writes, Holds s w)
      (fun _ => J [e]) := by
    refine Triple.forEach (J := fun done s => J [e] s ∧ ∀ w ∈ done, Holds s w)
      fun done w rest _ => ?_
    have hkeep : Keeps (fun s => J [e] s ∧ ∀ w ∈ done, Holds s w) Journal.point :=
      triple_point fun s failure hs => ⟨h.failure [e] s failure hs.1, hs.2⟩
    refine Triple.bind (hkeep.raises fun _ _ hs => hs.1)
      fun _ => ?_
    refine Triple.bind (Q := fun file s => s.files.get? w.relativePath = file ∧
      J [e] s ∧ ∀ w ∈ done, Holds s w)
      (Triple.read fun s hs => ⟨rfl, hs⟩) fun file => ?_
    refine Triple.require (fun s hs hfile => ⟨hs.2.1, fun w' hw' => ?_⟩) fun s hs _ => hs.2.1
    rcases List.mem_append.mp hw' with hw' | hw'
    · exact hs.2.2 w' hw'
    · rw [List.mem_singleton.mp hw']
      exact hs.1.trans (of_decide_eq_true hfile)
  exact hconfirm.weaken (fun s hs => ⟨hs, fun w hw => by cases hw⟩) (fun _ _ h => h)
    (fun _ _ h => h)

theorem Withstands.finalizeOperation :
    Triple (fun s => J [e] s ∧ ∀ w ∈ e.writes, Holds s w) (finalizeOperation env isFull e)
      (fun _ s => J [] s ∧ ∀ w ∈ e.writes, Holds s w) (fun _ => J [e]) := by
  refine Triple.bind (Q := fun results s =>
    J [] { s with journaled := s.journaled ++ insertionsOf e.operationId e.events results } ∧
      ∀ w ∈ e.writes, Holds s w)
    (triple_transact (fun s results db hs hfin => ?_) fun s _ hs _ => hs.1) fun results => ?_
  · exact ⟨h.finalize e s isFull results db hs.1 hs.2 hfin, hs.2⟩
  · exact Triple.bind (Triple.modify fun s hs => hs) fun _ => Triple.pure fun s hs => hs

theorem Withstands.publishing {β : Type}
    {f : List Record → Action Outbox JournalError β} {Q : β → Outbox → Prop}
    (hf : ∀ records, Triple (fun s => J [] s ∧ ∀ w ∈ e.writes, Holds s w) (f records) Q
      fun _ => AtMostOne J) :
    Triple (J [e]) (do
        Journal.applyWrites e
        Journal.point
        let records ← Journal.finalizeOperation env isFull e
        Journal.point
        f records) Q (fun _ => AtMostOne J) := by
  refine Triple.bind (h.applyWrites.raises fun _ _ hs => .one hs) fun _ => ?_
  have hpoint : ∀ waiting, Keeps (fun s => J waiting s ∧ ∀ w ∈ e.writes, Holds s w)
      Journal.point := fun waiting =>
    triple_point fun s failure hs => ⟨h.failure waiting s failure hs.1, hs.2⟩
  refine Triple.bind ((hpoint [e]).raises fun _ _ hs => .one hs.1) fun _ => ?_
  refine Triple.bind (h.finalizeOperation.raises fun _ _ hs => .one hs) fun records => ?_
  exact Triple.bind ((hpoint []).raises fun _ _ hs => .none hs.1) fun _ => hf records

end

def Upcoming (J : List Envelope → Outbox → Prop) : Option Envelope → Outbox → Prop
  | none, s => J [] s
  | some e, s => J [e] s

section

variable (h : Withstands env A J)

include h

/-- While at most `n` rows are pending, the loop leaves none or fails on the first. -/
theorem Withstands.reconcileRows (n : Nat) :
    Triple (fun s => ∃ waiting, J waiting s ∧ waiting.length ≤ n ∧ waiting.length ≤ 1)
      (reconcileRows env isFull n) (fun _ => J []) (fun _ => AtMostOne J) := by
  induction n with
  | zero =>
    refine Triple.bind (Q := fun _ => J []) (Triple.modify ?_)
      fun _ => Triple.pure fun s hs => hs
    rintro s ⟨waiting, hs, hn, _⟩
    have hw := List.length_eq_zero_iff.mp (Nat.le_zero.mp hn)
    subst hw
    exact h.settle s hs
  | succ n ih =>
    refine Triple.bind (Q := Upcoming J) (Triple.read ?_) fun envelope => ?_
    · rintro s ⟨waiting, hs, _, hw⟩
      rw [h.pending waiting s hs]
      cases waiting with
      | nil => exact hs
      | cons e rest =>
        cases rest with
        | nil => exact hs
        | cons e' rest =>
          rw [List.length_cons, List.length_cons] at hw
          omega
    · cases envelope with
      | none =>
        exact Triple.bind (Q := fun _ => J []) (Triple.modify fun s hs => h.settle s hs)
          fun _ => Triple.pure fun s hs => hs
      | some e =>
        refine h.publishing fun _ => ?_
        refine Triple.bind (ih.weaken (fun s hs => ?_) (fun _ _ hs => hs) fun _ _ hs => hs)
          fun _ => Triple.pure fun s hs => hs
        exact ⟨[], hs.1, Nat.zero_le n, Nat.zero_le 1⟩

theorem Withstands.reconcile :
    Triple (AtMostOne J) (reconcile env isFull) (fun _ => J []) (fun _ => AtMostOne J) := by
  refine Triple.bind (Q := fun _ => AtMostOne J) (Triple.modify ?_) fun _ => ?_
  · rintro s ⟨waiting, hs, hw⟩
    exact ⟨waiting, h.clear waiting s hs, hw⟩
  · refine Triple.bind (Q := fun n s => ∃ waiting, J waiting s ∧
      waiting.length ≤ n ∧ waiting.length ≤ 1) (Triple.read ?_) h.reconcileRows
    rintro s ⟨waiting, hs, hw⟩
    exact ⟨waiting, hs, by rw [h.pending waiting s hs], hw⟩

theorem Withstands.ensureReconciled :
    Triple (AtMostOne J) (ensureReconciled env isFull) (fun _ => J []) (fun _ => AtMostOne J) := by
  refine Triple.bind (Q := fun flag s => (flag = true → J [] s) ∧ AtMostOne J s)
    (Triple.read ?_) fun flag => ?_
  · rintro s ⟨waiting, hs, hw⟩
    refine ⟨fun hflag => ?_, ⟨waiting, hs, hw⟩⟩
    rw [h.flag waiting s hs hflag] at hs
    exact hs
  · cases flag with
    | true => exact Triple.pure fun s hs => hs.1 rfl
    | false =>
      exact Triple.bind (h.reconcile.weaken (fun _ hs => hs.2) (fun _ _ hs => hs)
        fun _ _ hs => hs) fun _ => Triple.pure fun s hs => hs

theorem Withstands.publish :
    Triple (fun s => J [e] { s with reconciled := false }) (publish env isFull e)
      (fun _ s => J [] s ∧ ∀ w ∈ e.writes, Holds s w) (fun _ => AtMostOne J) := by
  refine Triple.bind (Q := fun _ => J [e]) (Triple.modify fun s hs => hs) fun _ => ?_
  refine Triple.bind ((h.point [e]).raises fun _ _ hs => .one hs) fun _ => ?_
  refine h.publishing fun records => Triple.bind
    (Q := fun _ s => J [] s ∧ ∀ w ∈ e.writes, Holds s w)
    (Triple.modify fun s hs => ?_) fun _ => Triple.pure fun s hs => hs
  exact ⟨h.settle s hs.1, hs.2⟩

end

/-- What is known after `_prepare` with nothing pending. -/
def Prepared (J : List Envelope → Outbox → Prop) (e : Envelope) : Preparation → Outbox → Prop
  | .applied, s => J [] s
  | .resumed _, _ => False
  | .admitted, s => J [e] { s with reconciled := false }

/-- With nothing pending, an operation is applied already, or gets the only pending row. -/
theorem Withstands.prepareOperation (h : Withstands env A J) {fingerprint : String} (ha : A e)
    (hkeyed : WellKeyed e) (hprint : Prints env fingerprint e) :
    Triple (J []) (prepareOperation env isFull fingerprint e) (Prepared J e)
      (fun _ => AtMostOne J) := by
  refine Triple.bind (Q := fun preparation s => Prepared J e preparation
    { s with prepared := s.prepared ++ if preparation = .admitted then [e] else [] })
    (triple_transact (fun s preparation db hs hprepare => ?_) fun s _ hs _ => .none hs)
    fun preparation => ?_
  · rcases prepare_spec hprepare with ⟨row, hrow, _, rfl, rfl⟩ | ⟨hnone, rfl, hunexpired, rfl⟩
    · cases hp : row.pending with
      | none =>
        change J [] { s with prepared := s.prepared ++ [] }
        rw [List.append_nil]
        exact hs
      | some p =>
        have hin : p ∈ pendingEnvelopes s.db :=
          List.mem_filterMap.mpr ⟨row, Dict.mem_values_of_get? hrow, hp⟩
        rw [h.pending [] s hs] at hin
        cases hin
    · exact h.prepare e fingerprint s hs ha hkeyed hprint hnone hunexpired
  · exact Triple.bind (Q := fun _ => Prepared J e preparation) (Triple.modify fun s hs => hs)
      fun _ => Triple.pure fun s hs => hs

theorem Withstands.commitOperation (h : Withstands env A J) (operation : Operation)
    (draws : CommitDraws)
    (ha : ∀ fingerprint e, checkOperation env operation draws.now = .ok (fingerprint, e) → A e) :
    Triple (AtMostOne J) (commitOperation env operation draws) (fun _ => J [])
      (fun _ => AtMostOne J) := by
  refine Triple.bind h.ensureReconciled fun _ => ?_
  refine Triple.bind_lift (fun _ s hs => .none hs) fun checked hchecked => ?_
  obtain ⟨fingerprint, envelope⟩ := checked
  obtain ⟨hkeyed, _, hprint⟩ := checkOperation_spec hchecked
  refine Triple.bind (h.prepareOperation (ha fingerprint envelope hchecked) hkeyed hprint)
    fun preparation => ?_
  cases preparation with
  | applied =>
    refine Triple.bind (Q := fun _ => J []) (Triple.read fun s hs => hs) fun db => ?_
    exact Triple.lift (fun _ s hs _ => hs) fun _ s hs _ => .none hs
  | resumed earlier => exact fun s hs => hs.elim
  | admitted => exact h.publish.returns (fun _ _ hs => hs.1)

end

end CodexBridge.Journal
