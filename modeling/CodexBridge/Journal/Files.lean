import CodexBridge.Journal.Rejection

/-! # State files under the calls of the outbox

What can be said of the state files alone survives a call if it survives the three things that
happen to them: an operation becomes pending, one of its files is replaced, and it is done.
-/

namespace CodexBridge.Journal

open Effect

/-- The tables are in order, and the flag vouches that nothing is pending. -/
structure Clerk (env : Environment) (waiting : List Envelope) (s : Outbox) : Prop where
  books : Books env s.prepared s.db
  quiet : Quiet s.db
  pending : pendingEnvelopes s.db = waiting
  flag : s.reconciled = true → waiting = []

theorem clerk_initial (env : Environment) (files : Dict String StateFile) :
    Clerk env [] (Outbox.initial files) where
  books := (books_empty env).1
  quiet := (books_empty env).2
  pending := rfl
  flag := fun _ => rfl

/-- The rules for a property of the files, given the pending operations. -/
structure FileRules (A : Envelope → Prop) (K : List Envelope → Dict String StateFile → Prop) :
    Prop where
  prepare : ∀ e files, K [] files → A e → K [e] files
  replace : ∀ e w files, K [e] files → w ∈ e.writes →
    K [e] (files.set w.relativePath (.marked w.document true))
  finalize : ∀ e files, K [e] files → K [] files

def Attests (env : Environment) (K : List Envelope → Dict String StateFile → Prop)
    (waiting : List Envelope) (s : Outbox) : Prop := Clerk env waiting s ∧ K waiting s.files

section

variable {env : Environment} {A : Envelope → Prop}
  {K : List Envelope → Dict String StateFile → Prop} {s : Outbox} {e : Envelope}

theorem Clerk.prepare {fingerprint : String} (h : Clerk env [] s) (hkeyed : WellKeyed e)
    (hprint : Prints env fingerprint e) (hnone : s.db.outbox.get? e.operationId = none)
    (hunexpired : outboxTombstoneKey env e.operationId ∉ s.db.tombstones) :
    Clerk env [e] { s with
      db := insertPending s.db fingerprint e
      reconciled := false
      prepared := s.prepared ++ [e] } := by
  obtain ⟨hbooks, hquiet⟩ := h.books.prepare h.quiet hkeyed hprint hnone hunexpired
  refine ⟨hbooks, hquiet, pendingEnvelopes_insertPending h.pending hnone, ?_⟩
  intro hflag
  cases hflag

theorem Clerk.finalize {isFull : String → Bool} {results : List (Record × Bool)} {db : Database}
    (h : Clerk env [e] s) (hfin : Journal.finalize env isFull s.db e = .ok (results, db)) :
    Clerk env [] { s with
      db := db
      journaled := s.journaled ++ insertionsOf e.operationId e.events results } := by
  have hmem : e ∈ pendingEnvelopes s.db := by
    rw [h.pending]
    exact List.mem_cons_self
  obtain ⟨he, hpending⟩ := h.books.isPending hmem
  obtain ⟨hbooks, hquiet, _⟩ := h.books.finalize h.quiet he hpending hfin
  refine ⟨hbooks, hquiet, pendingEnvelopes_finalize h.books h.pending hfin, fun _ => rfl⟩

theorem FileRules.withstands (h : FileRules A K) (env : Environment) :
    Withstands env A (Attests env K) where
  pending _ _ hs := hs.1.pending
  flag _ _ hs := hs.1.flag
  failure _ _ _ hs := ⟨⟨hs.1.books, hs.1.quiet, hs.1.pending, hs.1.flag⟩, hs.2⟩
  clear _ _ hs :=
    ⟨⟨hs.1.books, hs.1.quiet, hs.1.pending, fun hflag => absurd hflag Bool.false_ne_true⟩, hs.2⟩
  settle _ hs := ⟨⟨hs.1.books, hs.1.quiet, hs.1.pending, fun _ => rfl⟩, hs.2⟩
  replace e w s hs hw :=
    ⟨⟨hs.1.books, hs.1.quiet, hs.1.pending, hs.1.flag⟩, h.replace e w s.files hs.2 hw⟩
  finalize e s _ _ _ hs _ hfin :=
    ⟨hs.1.finalize hfin, h.finalize e s.files hs.2⟩
  prepare e _ s hs ha hkeyed hprint hnone hunexpired :=
    ⟨hs.1.prepare hkeyed hprint hnone hunexpired, h.prepare e s.files hs.2 ha⟩

theorem Withstands.fixed {J : List Envelope → Outbox → Prop} (h : Withstands env A J)
    (prepared : List Envelope) :
    Withstands env (fun _ => False) fun waiting s => J waiting s ∧ s.prepared = prepared where
  pending waiting s hs := h.pending waiting s hs.1
  flag waiting s hs := h.flag waiting s hs.1
  failure waiting s failure hs := ⟨h.failure waiting s failure hs.1, hs.2⟩
  clear waiting s hs := ⟨h.clear waiting s hs.1, hs.2⟩
  settle s hs := ⟨h.settle s hs.1, hs.2⟩
  replace e w s hs hw := ⟨h.replace e w s hs.1 hw, hs.2⟩
  finalize e s isFull results db hs hall hfin :=
    ⟨h.finalize e s isFull results db hs.1 hall hfin, hs.2⟩
  prepare _ _ _ _ hfalse := hfalse.elim

theorem FileRules.prepareOperation (h : FileRules A K) {prepared : List Envelope}
    {isFull : String → Bool} {fingerprint : String} (ha : A e) (hkeyed : WellKeyed e)
    (hprint : Prints env fingerprint e)
    (hfresh : e.operationId ∉ prepared.map Envelope.operationId) :
    Triple (fun s => Attests env K [] s ∧ s.prepared = prepared)
      (prepareOperation env isFull fingerprint e)
      (fun preparation s => preparation = .admitted ∧
        Attests env K [e] { s with reconciled := false })
      (fun _ => AtMostOne (Attests env K)) := by
  refine Triple.bind (Q := fun preparation s => preparation = .admitted ∧ Attests env K [e]
    { s with reconciled := false, prepared := s.prepared ++ [e] })
    (triple_transact (fun s preparation db hs hprepare => ?_) fun s _ hs _ => .none hs.1)
    fun preparation => ?_
  · cases prepare_spec hprepare with
    | inl hold =>
      obtain ⟨row, hrow, _⟩ := hold
      obtain ⟨e', he', hid, _⟩ := hs.1.1.books.known _ row hrow
      rw [hs.2] at he'
      exact absurd (List.mem_map.mpr ⟨e', he', hid⟩) hfresh
    | inr hnew =>
      obtain ⟨hnone, hadmitted, hunexpired, hdb⟩ := hnew
      refine ⟨hadmitted, ?_⟩
      rw [hdb]
      exact (h.withstands env).prepare e fingerprint s hs.1 ha hkeyed hprint hnone hunexpired
  · refine Triple.bind (Q := fun _ s => preparation = .admitted ∧
      Attests env K [e] { s with reconciled := false }) (Triple.modify fun s hs => ?_)
      fun _ => Triple.pure fun s hs => hs
    refine ⟨hs.1, ?_⟩
    rw [if_pos hs.1]
    exact hs.2

/-- An operation under a new identifier that returns has all its documents in place. -/
theorem FileRules.commitOperation (h : FileRules A K) {prepared : List Envelope}
    (operation : Operation) (draws : CommitDraws)
    (ha : ∀ fingerprint e, checkOperation env operation draws.now = .ok (fingerprint, e) → A e)
    (hfresh : operation.operationId ∉ prepared.map Envelope.operationId) :
    Triple (fun s => AtMostOne (Attests env K) s ∧ s.prepared = prepared)
      (commitOperation env operation draws)
      (fun _ s => Attests env K [] s ∧ ∃ fingerprint e,
        checkOperation env operation draws.now = .ok (fingerprint, e) ∧ ∀ w ∈ e.writes, Holds s w)
      (fun _ => AtMostOne (Attests env K)) := by
  have hreconciled : Triple _ (ensureReconciled env draws.isFull) _ _ :=
    ((h.withstands env).fixed prepared).ensureReconciled
  refine Triple.bind (hreconciled.weaken ?_ (fun _ _ hs => hs) ?_) fun _ => ?_
  · intro s hs
    obtain ⟨⟨waiting, hwaiting, hlength⟩, hprepared⟩ := hs
    exact ⟨waiting, ⟨hwaiting, hprepared⟩, hlength⟩
  · intro _ s hs
    obtain ⟨waiting, hwaiting, hlength⟩ := hs
    exact ⟨waiting, hwaiting.1, hlength⟩
  · refine Triple.bind_lift (fun _ s hs => .none hs.1) fun checked hchecked => ?_
    obtain ⟨fingerprint, e⟩ := checked
    obtain ⟨hkeyed, hid, hprint⟩ := checkOperation_spec hchecked
    refine Triple.bind (h.prepareOperation (ha fingerprint e hchecked) hkeyed hprint
      (by rw [hid]; exact hfresh)) fun preparation => Triple.of_pure fun hadmitted => ?_
    rw [hadmitted]
    have hpublished : Triple _ (publish env draws.isFull e) _ _ := (h.withstands env).publish
    refine hpublished.weaken (fun s hs => hs) ?_ fun _ _ hs => hs
    intro _ s hs
    exact ⟨hs.1, fingerprint, e, hchecked, hs.2⟩

/-! ## Calls -/

theorem AtMostOne.mono {J J' : List Envelope → Outbox → Prop}
    (hj : ∀ waiting s, J waiting s → J' waiting s) (h : AtMostOne J s) : AtMostOne J' s := by
  obtain ⟨waiting, hs, hlength⟩ := h
  exact ⟨waiting, hj waiting s hs, hlength⟩

theorem Attests.edits {R : AppendRequest → Prop} {waiting : List Envelope} {added : List Insertion}
    {db : Database} (hR : ∀ r, R r → isOutboxKey r.operationKey = false)
    (h : Attests env K waiting s) (hedits : Edits env R s.db added db) :
    Attests env K waiting { s with db := db, journaled := s.journaled ++ added } := by
  refine ⟨⟨?_, h.1.quiet.edits hR hedits, hedits.leaves.pending.trans h.1.pending, h.1.flag⟩, h.2⟩
  apply h.1.books.edits (U := fun _ => False) _ (fun _ hf => hf.elim) hedits
  intro r hr id i hkey
  have hout := hR r hr
  rw [hkey, isOutboxKey_outboxKey] at hout
  cases hout

theorem files_keepsEdits :
    KeepsEdits env (fun r => isOutboxKey r.operationKey = false) (AtMostOne (Attests env K)) := by
  rintro s added db ⟨waiting, hfiles, hlength⟩ hedits
  exact ⟨waiting, hfiles.edits (fun _ hr => hr) hedits, hlength⟩

theorem FileRules.failure (h : FileRules A K) (hs : AtMostOne (Attests env K) s)
    (failure : Option (Nat × Failure)) :
    AtMostOne (Attests env K) { s with failure := failure } := by
  obtain ⟨waiting, hfiles, hlength⟩ := hs
  exact ⟨waiting, (h.withstands env).failure waiting s failure hfiles, hlength⟩

theorem FileRules.perform (h : FileRules A K) {call : Call} (hc : call.RespectsKeys)
    (ha : ∀ operation draws failure, call = .commit operation draws failure → ∀ fingerprint e,
      checkOperation env operation draws.now = .ok (fingerprint, e) → A e)
    (hs : AtMostOne (Attests env K) s) : AtMostOne (Attests env K) (s.perform env call) := by
  cases call with
  | append request draws => exact files_keepsEdits.append hc draws hs
  | compact scope through snapshot threadId => exact files_keepsEdits.compact hs
  | purge threadId => exact files_keepsEdits.purge hs
  | commit operation draws failure =>
    have hcommit := (h.withstands env).commitOperation operation draws
      (ha operation draws failure rfl)
    exact (hcommit.returns (fun _ _ hs => .none hs)).state
      (h.failure hs failure)
  | reconcile isFull failure =>
    have hreconcile : Triple _ (reconcile env isFull) _ _ := (h.withstands env).reconcile
    exact (hreconcile.returns (fun _ _ hs => .none hs)).state
      (h.failure hs failure)
  | restart =>
    obtain ⟨waiting, hfiles, hlength⟩ := hs
    exact ⟨waiting, (h.withstands env).clear waiting s hfiles, hlength⟩

end

theorem mem_encodeWrites {id : String} {seen : List String} {writes : List OutboxWrite}
    {encoded : List EnvelopeWrite} (h : encodeWrites id seen writes = .ok encoded)
    {w : EnvelopeWrite} (hw : w ∈ encoded) :
    w.relativePath ∉ seen ∧ ∃ write ∈ writes, w = ⟨write.relativePath, documentOf id write⟩ := by
  induction writes generalizing seen encoded with
  | nil =>
    cases h
    cases hw
  | cons write rest ih =>
    unfold encodeWrites at h
    obtain ⟨path, hpath, h⟩ := except_bind_eq_ok.mp h
    rw [refuse_bind_eq_ok] at h
    obtain ⟨hseen, h⟩ := h
    obtain ⟨others, hrest, h⟩ := except_bind_eq_ok.mp h
    cases h
    cases List.mem_cons.mp hw with
    | inl heq =>
      rw [heq]
      refine ⟨hseen, write, List.mem_cons_self, ?_⟩
      rw [relativeStatePath_eq hpath]
    | inr hother =>
      obtain ⟨hnew, found, hfound, heq⟩ := ih hrest hother
      exact ⟨fun hold => hnew (List.mem_cons_of_mem path hold), found,
        List.mem_cons_of_mem write hfound, heq⟩

theorem encodeWrites_first {id : String} {seen : List String} {write : OutboxWrite}
    {rest : List OutboxWrite} {encoded : List EnvelopeWrite}
    (h : encodeWrites id seen (write :: rest) = .ok encoded) {w : EnvelopeWrite}
    (hw : w ∈ encoded) (hpath : w.relativePath = write.relativePath) :
    w.document = documentOf id write := by
  unfold encodeWrites at h
  obtain ⟨path, hsame, h⟩ := except_bind_eq_ok.mp h
  rw [refuse_bind_eq_ok] at h
  obtain ⟨others, hrest, h⟩ := except_bind_eq_ok.mp h.2
  cases h
  cases List.mem_cons.mp hw with
  | inl heq => rw [heq]
  | inr hother =>
    have hnew := (mem_encodeWrites hrest hother).1
    rw [hpath, ← relativeStatePath_eq hsame] at hnew
    exact absurd List.mem_cons_self hnew

theorem checkOperation_encodeWrites {env : Environment} {operation : Operation}
    {now : Nat → String} {fingerprint : String} {e : Envelope}
    (h : checkOperation env operation now = .ok (fingerprint, e)) :
    encodeWrites operation.operationId [] operation.writes = .ok e.writes := by
  unfold checkOperation at h
  obtain ⟨_, _, h⟩ := except_bind_eq_ok.mp h
  obtain ⟨_, _, h⟩ := except_bind_eq_ok.mp h
  obtain ⟨envelope, he, h⟩ := except_bind_eq_ok.mp h
  rw [refuse_bind_eq_ok] at h
  cases h.2
  unfold operationEnvelope at he
  rw [refuse_bind_eq_ok] at he
  obtain ⟨writes, hwrites, he⟩ := except_bind_eq_ok.mp he.2
  obtain ⟨events, _, he⟩ := except_bind_eq_ok.mp he
  cases he
  exact hwrites

end CodexBridge.Journal
