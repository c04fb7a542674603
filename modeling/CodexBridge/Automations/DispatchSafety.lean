import CodexBridge.Automations.Dispatch

/-! # Careful dispatches keep every live run

The invariant ties each stored run to what the Bridge holds for its request id: no
run accepted and no link, an open run and an active record, or a reported run and
its status. Every step changes one of the two sides for one run and spares the rest.
-/

namespace CodexBridge.Automations.Dispatch

open Effect

/-! ## The Bridge tables -/

theorem dispatchRequestId_injective {a b : String} (h : dispatchRequestId a = dispatchRequestId b) :
    a = b := by
  have hlist := congrArg String.toList h
  simp only [dispatchRequestId, String.toList_append, List.append_cancel_left_eq] at hlist
  exact String.toList_inj.mp hlist

structure Bridge.Indexed (b : Bridge) : Prop where
  request : ∀ id run, b.runs.get? id = some run →
    b.requestIdempotency.get? run.clientRequestId = some id
  run : ∀ c id, b.requestIdempotency.get? c = some id →
    ∃ run, b.runs.get? id = some run ∧ run.clientRequestId = c
  owner : ∀ id run, b.runs.get? id = some run → isIdentifier id = true ∧
    isIdentifier run.threadId = true ∧
    ∃ k, run.clientRequestId = dispatchRequestId k ∧ isIdentifier k = true
  pending : ∀ c i, b.pendingPromptAdmissions.get? c = some i → b.requestIdempotency.get? c = none

variable {b : Bridge}

theorem Bridge.accepted_eq_some {k id : String} {run : BridgeRun}
    (h : b.accepted k = some (id, run)) :
    b.requestIdempotency.get? (dispatchRequestId k) = some id ∧ b.runs.get? id = some run := by
  unfold Bridge.accepted at h
  obtain ⟨id', hid, h⟩ := Option.bind_eq_some_iff.mp h
  obtain ⟨run', hrun, h⟩ := Option.map_eq_some_iff.mp h
  cases h
  exact ⟨hid, hrun⟩

theorem Bridge.Indexed.accepted_iff (h : b.Indexed) (k id : String)
    (run : BridgeRun) : b.accepted k = some (id, run) ↔
      b.runs.get? id = some run ∧ run.clientRequestId = dispatchRequestId k := by
  constructor
  · intro hk
    obtain ⟨hid, hrun⟩ := Bridge.accepted_eq_some hk
    obtain ⟨run', hrun', hc⟩ := h.run _ _ hid
    rw [hrun] at hrun'
    cases hrun'
    exact ⟨hrun, hc⟩
  · intro hk
    have hid := h.request id run hk.1
    rw [hk.2] at hid
    unfold Bridge.accepted
    rw [hid, Option.bind_some, hk.1]
    rfl

theorem Bridge.Indexed.accepted_eq_none (h : b.Indexed) {k : String}
    (hk : b.accepted k = none) : b.requestIdempotency.get? (dispatchRequestId k) = none := by
  cases hid : b.requestIdempotency.get? (dispatchRequestId k) with
  | none => rfl
  | some id =>
    obtain ⟨run, hrun, -⟩ := h.run _ _ hid
    unfold Bridge.accepted at hk
    rw [hid, Option.bind_some, hrun] at hk
    cases hk

theorem accepted_of_none {k : String}
    (h : b.requestIdempotency.get? (dispatchRequestId k) = none) : b.accepted k = none := by
  unfold Bridge.accepted
  rw [h]
  rfl

def Bridge.standing (b : Bridge) (k : String) : Option (String × Progress) :=
  (b.accepted k).map fun found => (found.1, found.2.progress)

theorem hasOpenRun_eq (b : Bridge) (k : String) :
    b.hasOpenRun k = (b.standing k).any fun found => found.2.isOpen := by
  unfold Bridge.hasOpenRun Bridge.standing
  cases b.accepted k with
  | none => rfl
  | some found => rfl

theorem Bridge.Indexed.setProgress (h : b.Indexed) (id : String) (p : Progress) :
    (b.setProgress id p).Indexed := by
  have hback : ∀ id' run', (b.setProgress id p).runs.get? id' = some run' →
      ∃ run, b.runs.get? id' = some run ∧ run'.clientRequestId = run.clientRequestId ∧
        run'.threadId = run.threadId := by
    intro id' run' hg
    simp only [Bridge.setProgress, Dict.get?_update] at hg
    split at hg
    · obtain ⟨run, hrun, hset⟩ := Option.map_eq_some_iff.mp hg
      exact ⟨run, hrun, by rw [← hset], by rw [← hset]⟩
    · exact ⟨run', hg, rfl, rfl⟩
  constructor
  · intro id' run' hg
    obtain ⟨run, hrun, hc, -⟩ := hback id' run' hg
    rw [hc]
    exact h.request id' run hrun
  · intro c id' hc
    obtain ⟨run, hrun, hsame⟩ := h.run c id' hc
    simp only [Bridge.setProgress, Dict.get?_update, hrun]
    split
    · exact ⟨_, rfl, hsame⟩
    · exact ⟨run, rfl, hsame⟩
  · intro id' run' hg
    obtain ⟨run, hrun, hc, ht⟩ := hback id' run' hg
    rw [hc, ht]
    exact h.owner id' run hrun
  · exact h.pending

theorem Bridge.Indexed.accepted_setProgress (h : b.Indexed) {id k : String}
    {run : BridgeRun} (hrun : b.runs.get? id = some run)
    (hk : run.clientRequestId = dispatchRequestId k) (p : Progress) (k' : String) :
    (b.setProgress id p).accepted k' =
      if k' = k then some (id, { run with progress := p }) else b.accepted k' := by
  have hindexed := h.setProgress id p
  split
  · rename_i hkk
    subst hkk
    apply (hindexed.accepted_iff _ _ _).mpr
    refine ⟨?_, hk⟩
    simp only [Bridge.setProgress, Dict.get?_update, if_pos, hrun]
    rfl
  rename_i hne
  unfold Bridge.accepted Bridge.setProgress
  simp only [Dict.get?_update]
  cases hc : b.requestIdempotency.get? (dispatchRequestId k') with
  | none => rfl
  | some id' =>
    have hother : id' ≠ id := by
      intro hid
      obtain ⟨run', hrun', hc'⟩ := h.run _ _ hc
      rw [hid, hrun] at hrun'
      cases hrun'
      exact hne (dispatchRequestId_injective (hc'.symm.trans hk))
    simp only [Option.bind_some, if_neg hother]

theorem Bridge.standing_of_accepted {b b' : Bridge} {k : String}
    (h : b'.accepted k = b.accepted k) : b'.standing k = b.standing k := by
  unfold Bridge.standing
  rw [h]

section

variable {b : Bridge} {k id threadId : String}

theorem Bridge.Indexed.accept (h : b.Indexed) (hnew : b.accepted k = none)
    (hfresh : b.runs.get? id = none) (hid : isIdentifier id = true)
    (hthread : isIdentifier threadId = true) (hk : isIdentifier k = true) :
    (b.accept k id threadId).Indexed := by
  have hnone := h.accepted_eq_none hnew
  constructor
  · intro id' run' hg
    simp only [Bridge.accept, Dict.get?_set] at hg ⊢
    split at hg
    · rename_i hsame
      cases hg
      rw [if_pos rfl, hsame]
    have hold := h.request id' run' hg
    rw [if_neg, hold]
    intro hc
    rw [hc, hnone] at hold
    cases hold
  · intro c id' hc
    simp only [Bridge.accept, Dict.get?_set] at hc ⊢
    split at hc
    · rename_i hsame
      cases hc
      exact ⟨⟨dispatchRequestId k, threadId, .live⟩, by rw [if_pos rfl], hsame.symm⟩
    obtain ⟨run, hrun, hsame⟩ := h.run c id' hc
    refine ⟨run, ?_, hsame⟩
    rw [if_neg, hrun]
    intro hid'
    rw [hid', hfresh] at hrun
    cases hrun
  · intro id' run' hg
    simp only [Bridge.accept, Dict.get?_set] at hg
    split at hg
    · rename_i hsame
      cases hg
      rw [hsame]
      exact ⟨hid, hthread, k, rfl, hk⟩
    · exact h.owner id' run' hg
  · intro c i hc
    simp only [Bridge.accept, Dict.get?_erase] at hc
    split at hc
    · cases hc
    rename_i hne
    simp only [Bridge.accept, Dict.get?_set, if_neg hne]
    exact h.pending c i hc

theorem Bridge.Indexed.accepted_accept (h : b.Indexed) (hfresh : b.runs.get? id = none)
    (k' : String) : (b.accept k id threadId).accepted k' =
      if k' = k then some (id, ⟨dispatchRequestId k, threadId, .live⟩) else b.accepted k' := by
  unfold Bridge.accepted Bridge.accept
  simp only [Dict.get?_set]
  by_cases hk : k' = k
  · simp [hk]
  have hne : dispatchRequestId k' ≠ dispatchRequestId k :=
    fun hc => hk (dispatchRequestId_injective hc)
  rw [if_neg hk, if_neg hne]
  cases hc : b.requestIdempotency.get? (dispatchRequestId k') with
  | none => rfl
  | some id' =>
    obtain ⟨run, hrun, -⟩ := h.run _ _ hc
    have hother : id' ≠ id := by
      intro hid
      rw [hid, hfresh] at hrun
      cases hrun
    simp only [Option.bind_some, if_neg hother]

end

/-- How the record of a run agrees with what the Bridge holds for it. -/
inductive Fits : Option (String × Progress) → Option Run → Prop where
  | unaccepted {found : Option Run} (link : ∀ run, found = some run → run.bridgeRunId = none) :
      Fits none found
  | opened {id : String} {p : Progress} {run : Run} (isOpen : p.isOpen = true)
      (active : run.status.isActive = true)
      (link : run.bridgeRunId = none ∨ run.bridgeRunId = some id) : Fits (some (id, p)) (some run)
  | reported {id : String} {outcome : Outcome} {found : Option Run}
      (final : ∀ run, found = some run →
        run.status = outcome.automationStatus ∧ run.bridgeRunId = some id) :
      Fits (some (id, .reported outcome)) found

theorem Outcome.automationStatus_isTerminal (o : Outcome) :
    o.automationStatus.isTerminal = true := by
  cases o <;> rfl

theorem Fits.spares {standing : Option (String × Progress)} {before after : Option Run}
    (h : Fits standing before) (hs : Spares before after) : Fits standing after := by
  cases h with
  | unaccepted link => exact .unaccepted fun run hrun => link run (hs.eq_of_some hrun)
  | opened hopen hactive link =>
    rw [hs.of_active rfl hactive]
    exact .opened hopen hactive link
  | reported final => exact .reported fun run hrun => final run (hs.eq_of_some hrun)

theorem Fits.active_of_open {id : String} {p : Progress} {found : Option Run}
    (h : Fits (some (id, p)) found) (hopen : p.isOpen = true) :
    ∃ run, found = some run ∧ run.status.isActive = true ∧
      (run.bridgeRunId = none ∨ run.bridgeRunId = some id) := by
  cases h with
  | opened _ hactive link => exact ⟨_, rfl, hactive, link⟩
  | reported _ => cases hopen

theorem Fits.reported_of_idle {id : String} {p : Progress} {run : Run}
    (h : Fits (some (id, p)) (some run)) (hidle : run.status.isActive = false) :
    p.isOpen = false ∧ ∀ run', SameOutcome run run' → Fits (some (id, p)) (some run') := by
  cases h with
  | opened _ hactive _ =>
    rw [hidle] at hactive
    cases hactive
  | reported final =>
    refine ⟨rfl, ?_⟩
    intro run' hsame
    apply Fits.reported
    intro r hr
    cases hr
    obtain ⟨hstatus, hlink⟩ := final run rfl
    exact ⟨hsame.status.trans hstatus, hsame.bridge.trans hlink⟩

theorem Fits.closed_of_absent {id : String} {p : Progress} (h : Fits (some (id, p)) none) :
    p.isOpen = false := by
  cases h with
  | reported _ => rfl

theorem Fits.complete {standing : Option (String × Progress)} {found : Option Run}
    (h : Fits standing found) (hclosed : standing.any (fun s => s.2.isOpen) = false)
    (error : Option Json) (now : Int) :
    Fits standing (found.map (afterComplete .blocked error now)) := by
  cases h with
  | unaccepted link =>
    apply Fits.unaccepted
    intro run hrun
    obtain ⟨before, hbefore, hafter⟩ := Option.map_eq_some_iff.mp hrun
    rw [← hafter]
    unfold afterComplete
    split
    · exact link before hbefore
    · exact link before hbefore
  | opened hopen _ _ =>
    simp only [Option.any_some] at hclosed
    rw [hopen] at hclosed
    cases hclosed
  | @reported _ outcome _ final =>
    apply Fits.reported
    intro run hrun
    obtain ⟨before, hbefore, hafter⟩ := Option.map_eq_some_iff.mp hrun
    obtain ⟨hstatus, hlink⟩ := final before hbefore
    have hidle := RunStatus.isActive_eq_false_of_isTerminal outcome.automationStatus_isTerminal
    rw [← hafter]
    unfold afterComplete
    rw [hstatus, if_neg (by rw [hidle]; exact Bool.false_ne_true)]
    exact ⟨hstatus, hlink⟩

def PhaseFits (b : Bridge) (i : Nat) (automationRunId : String) : Phase → Prop
  | .admitted => b.pendingPromptAdmissions.get? (dispatchRequestId automationRunId) = some i
  | .submitted id threadId => ∃ run, b.accepted automationRunId = some (id, run) ∧
      run.threadId = threadId
  | .rejected => b.hasOpenRun automationRunId = false
  | _ => True

/-- A request holds a claim, and its record, while it is kept, carries the key. -/
structure Served (w : World) (i : Nat) (q : Request) : Prop where
  identifier : isIdentifier q.automationRunId = true
  key : ∀ record, w.store.state.runs.get? q.automationRunId = some record →
    record.idempotencyKey = q.idempotencyKey
  phase : PhaseFits w.bridge i q.automationRunId q.phase

structure Inv (w : World) : Prop where
  consistent : w.store.Consistent
  identified : ∀ k record, w.store.state.runs.get? k = some record → isIdentifier k = true
  indexed : w.bridge.Indexed
  fits : ∀ k, Fits (w.bridge.standing k) (w.store.state.runs.get? k)
  served : ∀ i q, w.requests.get? i = some q → Served w i q

theorem inv_initial : Inv World.initial := by
  constructor
  · exact ⟨consistent_empty, fun f hf => by cases hf⟩
  · intro k record hg
    cases hg
  · constructor
    · intro id run hg
      cases hg
    · intro c id hg
      cases hg
    · intro id run hg
      cases hg
    · intro c i hg
      cases hg
  · intro k
    apply Fits.unaccepted
    intro run hrun
    cases hrun
  · intro i q hg
    cases hg

def KeepsKeys (s t : Store) : Prop :=
  ∀ k record', t.state.runs.get? k = some record' →
    ∃ record, s.state.runs.get? k = some record ∧ record'.idempotencyKey = record.idempotencyKey

theorem KeepsKeys.refl (s : Store) : KeepsKeys s s := fun _ record hg => ⟨record, hg, rfl⟩

variable {w : World}

theorem Inv.replace (h : Inv w) {s : Store} (hc : s.Consistent)
    (hk : KeepsKeys w.store s) (hb : b.Indexed)
    (hf : ∀ k, Fits (b.standing k) (s.state.runs.get? k))
    (hp : ∀ i q, w.requests.get? i = some q → PhaseFits b i q.automationRunId q.phase) :
    Inv { w with store := s, bridge := b } := by
  constructor
  · exact hc
  · intro k record' hg
    obtain ⟨record, hrecord, -⟩ := hk k record' hg
    exact h.identified k record hrecord
  · exact hb
  · exact hf
  · intro i q hq
    have hserved := h.served i q hq
    refine ⟨hserved.identifier, ?_, hp i q hq⟩
    intro record' hg
    obtain ⟨record, hrecord, hkey⟩ := hk _ record' hg
    rw [hkey]
    exact hserved.key record hrecord

theorem Inv.withStore (h : Inv w) {s : Store} (hc : s.Consistent) (hk : KeepsKeys w.store s)
    (hf : ∀ k, Fits (w.bridge.standing k) (s.state.runs.get? k)) :
    Inv { w with store := s } :=
  h.replace hc hk h.indexed hf fun i q hq => (h.served i q hq).phase

theorem Inv.withBridge (h : Inv w) (hb : b.Indexed)
    (hf : ∀ k, Fits (b.standing k) (w.store.state.runs.get? k))
    (hp : ∀ i q, w.requests.get? i = some q → PhaseFits b i q.automationRunId q.phase) :
    Inv { w with bridge := b } :=
  h.replace h.consistent (KeepsKeys.refl w.store) hb hf hp

theorem get?_setPhase (w : World) (i j : Nat) (phase : Phase) :
    (w.setPhase i phase).requests.get? j =
      if j = i then (w.requests.get? j).map (fun q => { q with phase := phase })
      else w.requests.get? j :=
  Dict.get?_update _ _ _ _

variable {i : Nat} {q : Request}

theorem Inv.setPhase (h : Inv w) {phase : Phase}
    (hq : w.requests.get? i = some q) (hp : PhaseFits w.bridge i q.automationRunId phase) :
    Inv (w.setPhase i phase) := by
  refine ⟨h.consistent, h.identified, h.indexed, h.fits, ?_⟩
  intro j q' hq'
  rw [get?_setPhase] at hq'
  split at hq'
  · rename_i hj
    subst hj
    rw [hq] at hq'
    cases hq'
    have hserved := h.served j q hq
    exact ⟨hserved.identifier, hserved.key, hp⟩
  · have hserved := h.served j q' hq'
    exact ⟨hserved.identifier, hserved.key, hserved.phase⟩

theorem Inv.move (h : Inv w) {phase : Phase} (hq : w.requests.get? i = some q) (hb : b.Indexed)
    (hf : ∀ k, Fits (b.standing k) (w.store.state.runs.get? k))
    (hp : PhaseFits b i q.automationRunId phase)
    (hothers : ∀ j q', j ≠ i → w.requests.get? j = some q' →
      PhaseFits b j q'.automationRunId q'.phase) :
    Inv { w.setPhase i phase with bridge := b } := by
  refine ⟨h.consistent, h.identified, hb, hf, ?_⟩
  intro j q' hq'
  change (w.setPhase i phase).requests.get? j = some q' at hq'
  rw [get?_setPhase] at hq'
  split at hq'
  · rename_i hj
    subst hj
    rw [hq] at hq'
    cases hq'
    have hserved := h.served j q hq
    exact ⟨hserved.identifier, hserved.key, hp⟩
  · rename_i hj
    have hserved := h.served j q' hq'
    exact ⟨hserved.identifier, hserved.key, hothers j q' hj hq'⟩

theorem release_accepted (b : Bridge) (c : String) (i : Nat) (k : String) :
    (b.release c i).accepted k = b.accepted k := by
  unfold Bridge.release
  split
  · rfl
  · rfl

theorem Bridge.Indexed.release (h : b.Indexed) (c : String) (i : Nat) :
    (b.release c i).Indexed := by
  unfold Bridge.release
  split
  · refine ⟨h.request, h.run, h.owner, ?_⟩
    intro c' i' hc
    simp only [Dict.get?_erase] at hc
    split at hc
    · cases hc
    · exact h.pending c' i' hc
  · exact h

theorem PhaseFits.release {i j : Nat} {c k : String} {phase : Phase}
    (h : PhaseFits b j k phase) (hj : j ≠ i) : PhaseFits (b.release c i) j k phase := by
  cases phase with
  | admitted =>
    simp only [PhaseFits] at h ⊢
    unfold Bridge.release
    split
    · rename_i hc
      simp only [Dict.get?_erase]
      rw [if_neg, h]
      intro hsame
      rw [hsame, hc] at h
      exact hj (Option.some.inj h).symm
    · exact h
  | submitted id threadId =>
    simp only [PhaseFits, release_accepted] at h ⊢
    exact h
  | rejected =>
    simp only [PhaseFits, Bridge.hasOpenRun, release_accepted] at h ⊢
    exact h
  | dispatching => trivial
  | answered => trivial

theorem Inv.reject (h : Inv w) (c : String)
    (hq : w.requests.get? i = some q) (hclosed : w.bridge.hasOpenRun q.automationRunId = false) :
    Inv { w.setPhase i .rejected with bridge := w.bridge.release c i } := by
  apply h.move hq (h.indexed.release c i)
  · intro k
    rw [Bridge.standing_of_accepted (release_accepted w.bridge c i k)]
    exact h.fits k
  · simp only [PhaseFits, Bridge.hasOpenRun, release_accepted]
    exact hclosed
  · intro j q' hj hq'
    exact (h.served j q' hq').phase.release hj

section

variable {w : World} {α : Type} {c : StoreAction α} {k : String}

theorem spares_state (h : Inv w) (hspares : Keeps (SparesFrom k (w.store.state.runs.get? k)) c) :
    Spares (w.store.state.runs.get? k) ((c w.store).2.state.runs.get? k) :=
  (hspares.state ⟨h.consistent.1.named, Spares.refl _⟩).2

theorem Inv.call (h : Inv w) {after : Option Run} (hc : (c w.store).2.Consistent)
    (hspares : ∀ k', k' ≠ k → ∀ before, Keeps (SparesFrom k' before) c)
    (hafter : (c w.store).2.state.runs.get? k = after)
    (hkey : ∀ record', after = some record' → ∃ record,
      w.store.state.runs.get? k = some record ∧ record'.idempotencyKey = record.idempotencyKey)
    (hfits : Fits (w.bridge.standing k) after) : Inv { w with store := (c w.store).2 } := by
  apply h.withStore hc
  · intro k' record' hg
    by_cases hk : k' = k
    · subst hk
      exact hkey record' (hafter.symm.trans hg)
    · have hs := spares_state h (hspares k' hk _)
      exact ⟨record', hs.eq_of_some hg, rfl⟩
  · intro k'
    by_cases hk : k' = k
    · subst hk
      rw [hafter]
      exact hfits
    · exact (h.fits k').spares (spares_state h (hspares k' hk _))

end

theorem Inv.block (h : Inv w) (env : Environment) {i : Nat}
    (hq : w.requests.get? i = some q) (hphase : q.phase = .rejected) (error : Option Json)
    (now : Int) (writes : Bool) :
    Inv { w.setPhase i .answered with
      store := (Automations.complete env q.automationRunId .blocked error now writes
        w.store).2 } := by
  have hserved := h.served i q hq
  have hclosed := hserved.phase
  rw [hphase] at hclosed
  simp only [PhaseFits, hasOpenRun_eq] at hclosed
  have hfound : HoldsRun q.automationRunId (w.store.state.runs.get? q.automationRunId) w.store :=
    rfl
  have hblocked : RunStatus.blocked.isTerminal = true := rfl
  have hholds := (complete_holdsRun env q.automationRunId hblocked error now writes
    hserved.identifier).state hfound
  have hstored : Inv { w with
      store := (Automations.complete env q.automationRunId .blocked error now writes
        w.store).2 } := by
    apply h.call
      ((outcomes_consistent.complete env _ error now writes trivial).state h.consistent)
      (fun k' hk before => outcomes_spares.complete env _ error now writes hk) hholds
    · intro record' hg
      obtain ⟨record, hrecord, hafter⟩ := Option.map_eq_some_iff.mp hg
      refine ⟨record, hrecord, ?_⟩
      rw [← hafter]
      unfold afterComplete
      split
      · rfl
      · rfl
    · exact (h.fits q.automationRunId).complete hclosed error now
  have hfits : PhaseFits w.bridge i q.automationRunId .answered := trivial
  exact hstored.setPhase hq hfits

/-- What `mark_running` leaves when the record is not already running: it raises only
where no Bridge run is open. -/
theorem markRunning_fits (env : Environment) {s : Store} {k id threadId : String} {p : Progress}
    {found : Option Run} (hk : isIdentifier k = true) (hid : isIdentifier id = true)
    (hthread : isIdentifier threadId = true) (hfound : s.state.runs.get? k = found)
    (hfits : Fits (some (id, p)) found)
    (hcareful : ∀ run, found = some run → run.status ≠ .running) (now : Int) :
    ∃ after, (Automations.markRunning env k (some id) (some threadId) now true
        s).2.state.runs.get? k = after ∧
      Fits (some (id, p)) after ∧ after.isSome = found.isSome ∧
      (∀ run', after = some run' → ∃ run, found = some run ∧
        run'.idempotencyKey = run.idempotencyKey) ∧
      (p.isOpen = true → ∃ run, (Automations.markRunning env k (some id) (some threadId) now true
        s).1 = .ok run) := by
  cases found with
  | none =>
    refine ⟨none, (markRunning_absent env k _ _ now true).state hfound, hfits, rfl, ?_, ?_⟩
    · intro run' hrun
      cases hrun
    · intro hopen
      rw [hfits.closed_of_absent] at hopen
      cases hopen
  | some run =>
    by_cases hqueued : run.status = .queued
    · have hspec := markRunning_queued env hk hid hthread hqueued now s hfound
      cases hresult : Automations.markRunning env k (some id) (some threadId) now true s with
      | mk result t =>
        cases result with
        | error e => exact (hspec.2 e t hresult).elim
        | ok returned =>
          have hopen : p.isOpen = true := by
            cases hfits with
            | opened hopen _ _ => exact hopen
            | @reported _ outcome _ final =>
              have hterminal := outcome.automationStatus_isTerminal
              rw [← (final run rfl).1, hqueued] at hterminal
              cases hterminal
          obtain ⟨hstarted, hstored⟩ := hspec.1 returned t hresult
          rw [hstarted] at hstored
          refine ⟨_, hstored, .opened hopen rfl (Or.inr rfl), rfl, ?_,
            fun _ => ⟨returned, rfl⟩⟩
          intro run' hrun
          cases hrun
          exact ⟨run, rfl, rfl⟩
    · have hidle : run.status.isActive = false := by
        have hrunning := hcareful run rfl
        cases hs : run.status with
        | queued => exact absurd hs hqueued
        | running => exact absurd hs hrunning
        | _ => rfl
      obtain ⟨hclosed, hsettled⟩ := hfits.reported_of_idle hidle
      obtain ⟨run', hafter, hsame⟩ :=
        (markRunning_settled env hk hqueued (some id) (some threadId) now true).state
          (s := s) hfound
      refine ⟨some run', hafter, hsettled run' hsame, rfl, ?_, ?_⟩
      · intro r hr
        cases hr
        exact ⟨run, rfl, hsame.key⟩
      · intro hopen
        rw [hclosed] at hopen
        cases hopen

theorem Inv.markRunning (h : Inv w) (env : Environment) {i : Nat}
    {id threadId : String} (hq : w.requests.get? i = some q)
    (hphase : q.phase = .submitted id threadId)
    (hcareful : ∀ run, w.store.state.runs.get? q.automationRunId = some run →
      run.status ≠ .running) (now : Int) :
    Inv { w.setPhase i (phaseAfter (Automations.markRunning env q.automationRunId (some id)
        (some threadId) now true w.store).1 .rejected) with
      store := (Automations.markRunning env q.automationRunId (some id) (some threadId) now true
        w.store).2 } ∧
    ((Automations.markRunning env q.automationRunId (some id) (some threadId) now true
        w.store).2.state.runs.get? q.automationRunId).isSome =
      (w.store.state.runs.get? q.automationRunId).isSome := by
  have hserved := h.served i q hq
  have hsubmitted := hserved.phase
  rw [hphase] at hsubmitted
  obtain ⟨bridgeRun, haccepted, hthread⟩ := hsubmitted
  obtain ⟨-, hrun⟩ := Bridge.accepted_eq_some haccepted
  have howner := h.indexed.owner id bridgeRun hrun
  have hstanding : w.bridge.standing q.automationRunId = some (id, bridgeRun.progress) := by
    unfold Bridge.standing
    rw [haccepted]
    rfl
  have hfits := h.fits q.automationRunId
  rw [hstanding] at hfits
  obtain ⟨after, hafter, hfits', hkept, hkey, hok⟩ := markRunning_fits env hserved.identifier
    howner.1 (hthread ▸ howner.2.1) rfl hfits hcareful now
  refine ⟨?_, by rw [hafter, hkept]⟩
  have hstored : Inv { w with
      store := (Automations.markRunning env q.automationRunId (some id) (some threadId) now true
        w.store).2 } := by
    apply h.call
      ((outcomes_consistent.markRunning env _ _ now true trivial).state h.consistent)
      (fun k' hk before => outcomes_spares.markRunning env _ _ now true hk) hafter hkey
    rw [hstanding]
    exact hfits'
  apply hstored.setPhase hq
  cases hresult : (Automations.markRunning env q.automationRunId (some id) (some threadId) now
      true w.store).1 with
  | ok run => trivial
  | error e =>
    simp only [phaseAfter, PhaseFits, hasOpenRun_eq]
    rw [hstanding, Option.any_some]
    cases hopen : bridgeRun.progress.isOpen with
    | false => rfl
    | true =>
      obtain ⟨run, hrun'⟩ := hok hopen
      rw [hresult] at hrun'
      cases hrun'

section

variable {w : World} {id k : String} {run : BridgeRun}

theorem PhaseFits.setProgress {b : Bridge} (hb : b.Indexed) {p : Progress}
    (hrun : b.runs.get? id = some run) (hk : run.clientRequestId = dispatchRequestId k)
    (hopen : run.progress.isOpen = true) {i : Nat} {k' : String} {phase : Phase}
    (h : PhaseFits b i k' phase) : PhaseFits (b.setProgress id p) i k' phase := by
  have haccepted := (hb.accepted_iff k id run).mpr ⟨hrun, hk⟩
  cases phase with
  | admitted => exact h
  | submitted id' threadId =>
    obtain ⟨run', hold, hthread⟩ := h
    simp only [PhaseFits, hb.accepted_setProgress hrun hk]
    split
    · rename_i hkk
      subst hkk
      rw [haccepted] at hold
      cases hold
      exact ⟨_, rfl, hthread⟩
    · exact ⟨run', hold, hthread⟩
  | rejected =>
    simp only [PhaseFits, Bridge.hasOpenRun, hb.accepted_setProgress hrun hk] at h ⊢
    split
    · rename_i hkk
      subst hkk
      rw [haccepted, Option.any_some, hopen] at h
      cases h
    · exact h
  | dispatching => trivial
  | answered => trivial

theorem Bridge.Indexed.standing_setProgress {b : Bridge} (hb : b.Indexed)
    (hrun : b.runs.get? id = some run) (hk : run.clientRequestId = dispatchRequestId k)
    (p : Progress) (k' : String) :
    (b.setProgress id p).standing k' = if k' = k then some (id, p) else b.standing k' := by
  unfold Bridge.standing
  rw [hb.accepted_setProgress hrun hk]
  split
  · rfl
  · rfl

theorem Inv.finish (h : Inv w) (outcome : Outcome) (hrun : w.bridge.runs.get? id = some run)
    (hlive : run.progress = .live) :
    Inv { w with bridge := w.bridge.setProgress id (.ended outcome) } := by
  obtain ⟨-, -, k, hk, -⟩ := h.indexed.owner id run hrun
  have hopen : run.progress.isOpen = true := by
    rw [hlive]
    rfl
  apply h.withBridge (h.indexed.setProgress id _)
  · intro k'
    rw [h.indexed.standing_setProgress hrun hk]
    split
    · rename_i hkk
      subst hkk
      have hfits := h.fits k'
      have haccepted := (h.indexed.accepted_iff k' id run).mpr ⟨hrun, hk⟩
      unfold Bridge.standing at hfits
      rw [haccepted] at hfits
      obtain ⟨record, hrecord, hactive, hlink⟩ := hfits.active_of_open hopen
      rw [hrecord]
      exact .opened rfl hactive hlink
    · exact h.fits k'
  · intro i q hq
    exact (h.served i q hq).phase.setProgress h.indexed hrun hk hopen

/-- The listener finds the record active and links it, whatever becomes of its write. -/
theorem Inv.reported_record (h : Inv w) (env : Environment) {outcome : Outcome}
    (hrun : w.bridge.runs.get? id = some run) (hk : run.clientRequestId = dispatchRequestId k)
    (hended : run.progress = .ended outcome) (now : Int) (writes : Bool) :
    ∃ record, w.store.state.runs.get? k = some record ∧
      (completeRuntimeRun env id run.clientRequestId true outcome.automationStatus none now
        writes w.store).2.state.runs.get? k =
      some (completedRun outcome.automationStatus none now
        { record with bridgeRunId := some id }) := by
  obtain ⟨hid, -, k', hk', hkid⟩ := h.indexed.owner id run hrun
  have hsame : k' = k := dispatchRequestId_injective (hk'.symm.trans hk)
  subst hsame
  have hfits := h.fits k'
  have haccepted := (h.indexed.accepted_iff k' id run).mpr ⟨hrun, hk⟩
  unfold Bridge.standing at hfits
  rw [haccepted] at hfits
  obtain ⟨record, hrecord, hactive, hlink⟩ := hfits.active_of_open (by rw [hended]; rfl)
  have hrequest : automationRunIdOf run.clientRequestId = some k' := by
    rw [hk]
    exact automationRunIdOf_dispatchRequestId k'
  exact ⟨record, hrecord, (completeRuntimeRun_holdsRun env outcome.automationStatus_isTerminal
    hrequest hkid hid hactive hlink none now writes).state (s := w.store) hrecord⟩

theorem Inv.report (h : Inv w) (env : Environment) {outcome : Outcome}
    (hrun : w.bridge.runs.get? id = some run) (hended : run.progress = .ended outcome)
    (now : Int) (writes : Bool) :
    Inv { w with
      store := (completeRuntimeRun env id run.clientRequestId true outcome.automationStatus none
        now writes w.store).2
      bridge := w.bridge.setProgress id (.reported outcome) } := by
  obtain ⟨-, -, k, hk, -⟩ := h.indexed.owner id run hrun
  have hopen : run.progress.isOpen = true := by
    rw [hended]
    rfl
  obtain ⟨record, hrecord, hafter⟩ := h.reported_record env hrun hk hended now writes
  have hspares : ∀ k', k' ≠ k → Spares (w.store.state.runs.get? k')
      ((completeRuntimeRun env id run.clientRequestId true outcome.automationStatus none now
        writes w.store).2.state.runs.get? k') := by
    intro k' hne
    apply spares_state h
    apply outcomes_spares.completeRuntimeRun
    rw [hk, automationRunIdOf_dispatchRequestId]
    intro runId hsame
    rw [← Option.some.inj hsame]
    exact hne
  have hkeeps : Keeps Store.Consistent (completeRuntimeRun env id run.clientRequestId true
      outcome.automationStatus none now writes) :=
    outcomes_consistent.completeRuntimeRun env id true _ none now writes fun _ _ => trivial
  have hconsistent := hkeeps.state h.consistent
  apply h.replace hconsistent ?_
    (h.indexed.setProgress id _)
  · intro k'
    rw [h.indexed.standing_setProgress hrun hk]
    split
    · rename_i hkk
      subst hkk
      rw [hafter]
      apply Fits.reported
      intro r hr
      cases hr
      exact ⟨rfl, rfl⟩
    · rename_i hne
      exact (h.fits k').spares (hspares k' hne)
  · intro i q hq
    exact (h.served i q hq).phase.setProgress h.indexed hrun hk hopen
  · intro k' record' hg
    by_cases hkk : k' = k
    · subst hkk
      rw [hafter] at hg
      cases hg
      exact ⟨record, hrecord, rfl⟩
    · exact ⟨record', (hspares k' hkk).eq_of_some hg, rfl⟩

end

/-- A replay hands out the accepted run, a pending admission raises, and otherwise the
request gets the admission for itself. -/
theorem Inv.admitRun (h : Inv w) {i : Nat}
    (hq : w.requests.get? i = some q) : Inv (w.admitted i q) := by
  unfold World.admitted
  cases haccepted : w.bridge.accepted q.automationRunId with
  | some found =>
    obtain ⟨id, run⟩ := found
    exact h.setPhase hq ⟨run, haccepted, rfl⟩
  | none =>
    simp only
    split
    · apply h.setPhase hq
      simp only [PhaseFits, Bridge.hasOpenRun, haccepted]
      rfl
    rename_i hpending
    rw [Dict.contains_iff] at hpending
    have hnone := h.indexed.accepted_eq_none haccepted
    apply h.move hq
    · refine ⟨h.indexed.request, h.indexed.run, h.indexed.owner, ?_⟩
      intro c j hc
      simp only [Dict.get?_set] at hc
      split at hc
      · rename_i hsame
        rw [hsame]
        exact hnone
      · exact h.indexed.pending c j hc
    · exact h.fits
    · exact Dict.get?_set_self _ _ _
    · intro j q' _ hq'
      have hfits := (h.served j q' hq').phase
      cases hp : q'.phase with
      | admitted =>
        rw [hp] at hfits
        simp only [PhaseFits, Dict.get?_set] at hfits ⊢
        rw [if_neg, hfits]
        intro hsame
        rw [hsame] at hfits
        exact hpending ⟨j, hfits⟩
      | submitted id threadId =>
        rw [hp] at hfits
        exact hfits
      | rejected =>
        rw [hp] at hfits
        exact hfits
      | dispatching => trivial
      | answered => trivial

/-- The first submission of an active run that no failed dispatch is about to block. -/
theorem Inv.submit (h : Inv w) {id threadId : String}
    (hq : w.requests.get? i = some q) (hphase : q.phase = .admitted)
    (hfresh : w.bridge.runs.get? id = none) (hid : isIdentifier id = true)
    (hthread : isIdentifier threadId = true)
    (hactive : ∃ record, w.store.state.runs.get? q.automationRunId = some record ∧
      record.status.isActive = true)
    (hrejected : ∀ j q', w.requests.get? j = some q' → q'.automationRunId = q.automationRunId →
      q'.phase ≠ .rejected) :
    Inv (w.submitted i q id threadId) := by
  have hserved := h.served i q hq
  have hpending : w.bridge.pendingPromptAdmissions.get? (dispatchRequestId q.automationRunId) =
      some i := by
    have hp := hserved.phase
    rw [hphase] at hp
    exact hp
  have haccepted := accepted_of_none (h.indexed.pending _ i hpending)
  have hsame : ∀ k, (w.bridge.accept q.automationRunId id threadId).accepted k =
      if k = q.automationRunId then
        some (id, ⟨dispatchRequestId q.automationRunId, threadId, .live⟩)
      else w.bridge.accepted k := h.indexed.accepted_accept hfresh
  unfold World.submitted
  simp only
  rw [if_neg (not_not_intro hpending), haccepted]
  apply h.move hq (h.indexed.accept haccepted hfresh hid hthread hserved.identifier)
  · intro k
    unfold Bridge.standing
    rw [hsame]
    split
    · rename_i hk
      subst hk
      obtain ⟨record, hrecord, hlive⟩ := hactive
      have hfits := h.fits q.automationRunId
      unfold Bridge.standing at hfits
      rw [haccepted, hrecord] at hfits
      rw [hrecord]
      cases hfits with
      | unaccepted link => exact .opened rfl hlive (Or.inl (link record rfl))
    · exact h.fits k
  · exact ⟨⟨dispatchRequestId q.automationRunId, threadId, .live⟩, by rw [hsame, if_pos rfl], rfl⟩
  · intro j q' hj hq'
    have hfits := (h.served j q' hq').phase
    cases hp : q'.phase with
    | admitted =>
      rw [hp] at hfits
      simp only [PhaseFits, Bridge.accept, Dict.get?_erase] at hfits ⊢
      rw [if_neg, hfits]
      intro hk
      rw [hk, hpending] at hfits
      exact hj (Option.some.inj hfits).symm
    | rejected =>
      rw [hp] at hfits
      have hne : q'.automationRunId ≠ q.automationRunId :=
        fun hk => hrejected j q' hq' hk hp
      simp only [PhaseFits, Bridge.hasOpenRun, hsame, if_neg hne] at hfits ⊢
      exact hfits
    | submitted a t =>
      rw [hp] at hfits
      obtain ⟨run, hrun, ht⟩ := hfits
      have hne : q'.automationRunId ≠ q.automationRunId := by
        intro hk
        rw [hk, haccepted] at hrun
        cases hrun
      refine ⟨run, ?_, ht⟩
      rw [hsame, if_neg hne]
      exact hrun
    | dispatching => trivial
    | answered => trivial

theorem isUnused_spec {k : String} (h : w.isUnused k = true) :
    isIdentifier k = true ∧ w.store.state.runs.get? k = none ∧
      w.bridge.requestIdempotency.get? (dispatchRequestId k) = none ∧
      ∀ i q, w.requests.get? i = some q → q.automationRunId ≠ k := by
  simp only [World.isUnused, Bool.and_eq_true, Bool.not_eq_true', Dict.contains,
    Option.isSome_eq_false_iff, Option.isNone_iff_eq_none, List.all_eq_true,
    decide_eq_true_eq] at h
  exact ⟨h.1.1.1, h.1.1.2, h.1.2, fun i q hq => h.2 q (Dict.mem_values_of_get? hq)⟩

theorem Inv.claim (h : Inv w) {key uuid : String} {c : StoreAction Run}
    (hunused : w.isUnused ("autrun_" ++ uuid) = true) (hc : Claims key uuid c) :
    Inv (w.claimed i key (c w.store)) := by
  obtain ⟨hid, habsent, hnone, hothers⟩ := isUnused_spec hunused
  have hfresh : Store.Fresh uuid w.store := ⟨h.consistent, habsent⟩
  have hconsistent := hc.consistent.state hfresh
  have hspares : ∀ k, k ≠ "autrun_" ++ uuid →
      Spares (w.store.state.runs.get? k) ((c w.store).2.state.runs.get? k) :=
    fun k hk => spares_state h (hc.spares k hk _)
  have hunlinked : Unlinked ("autrun_" ++ uuid) (c w.store).2 :=
    (hc.returns.returns (fun _ _ hs => hs.2.2)).state hfresh
  have hidentified : ∀ k record, (c w.store).2.state.runs.get? k = some record →
      isIdentifier k = true := by
    intro k record hg
    by_cases hk : k = "autrun_" ++ uuid
    · rw [hk]
      exact hid
    · exact h.identified k record ((hspares k hk).eq_of_some hg)
  have hserved : ∀ j q, w.requests.get? j = some q → isIdentifier q.automationRunId = true ∧
      (∀ record, (c w.store).2.state.runs.get? q.automationRunId = some record →
        record.idempotencyKey = q.idempotencyKey) ∧
      PhaseFits w.bridge j q.automationRunId q.phase := by
    intro j q hq
    have hq' := h.served j q hq
    refine ⟨hq'.identifier, ?_, hq'.phase⟩
    intro record hg
    exact hq'.key record ((hspares _ (hothers j q hq)).eq_of_some hg)
  refine ⟨hconsistent, hidentified, h.indexed, ?_, ?_⟩
  · intro k
    by_cases hk : k = "autrun_" ++ uuid
    · subst hk
      change Fits (w.bridge.standing _) ((c w.store).2.state.runs.get? _)
      unfold Bridge.standing
      rw [accepted_of_none hnone]
      exact .unaccepted hunlinked
    · exact (h.fits k).spares (hspares k hk)
  · intro j q hq
    simp only [World.claimed] at hq
    cases hresult : (c w.store).1 with
    | error e =>
      rw [hresult] at hq
      obtain ⟨hqid, hqkey, hqphase⟩ := hserved j q hq
      exact ⟨hqid, hqkey, hqphase⟩
    | ok run =>
      rw [hresult] at hq
      simp only [Dict.get?_set] at hq
      split at hq
      · cases hq
        obtain ⟨hstored, hkey, -⟩ := (hc.returns w.store hfresh).1 run (c w.store).2
          (by rw [← hresult])
        refine ⟨hidentified _ run hstored, ?_, ?_⟩
        · intro record hg
          simp only [World.claimed] at hg
          rw [hstored] at hg
          cases hg
          exact hkey
        · simp only
          split
          · trivial
          · trivial
      · obtain ⟨hqid, hqkey, hqphase⟩ := hserved j q hq
        exact ⟨hqid, hqkey, hqphase⟩

def isDeletion : Call → Bool
  | .delete .. => true
  | _ => false

/-- A call on definitions leaves the runs alone unless it deletes. -/
theorem definitionCall_runs {s : Store} (env : Environment) {call : Call}
    (hcall : isDefinitionCall call = true) (hdelete : isDeletion call = false) :
    (perform env call s).2.state.runs = s.state.runs := by
  have haside : Aside fun t => t.state.runs = s.state.runs :=
    Aside.of_runs (I := (· = s.state.runs))
  have hruns : Keeps (fun t => t.state.runs = s.state.runs) (perform env call) := by
    cases call with
    | create payload uuid now writes => exact (haside.create env payload uuid now writes).map
    | update automationId changes expectedRevision now writes =>
      exact (haside.update env automationId changes expectedRevision now writes).map
    | pause automationId expectedRevision now writes =>
      exact (haside.setEnabled env automationId false expectedRevision now writes).map
    | resume automationId expectedRevision now writes =>
      exact (haside.setEnabled env automationId true expectedRevision now writes).map
    | schedulerSnapshot now writes => exact (haside.schedulerSnapshot env now writes).map
    | delete => cases hdelete
    | claim => cases hcall
    | runNow => cases hcall
    | markRunning => cases hcall
    | complete => cases hcall
    | completeByBridgeRun => cases hcall
    | completeRuntimeRun => cases hcall
    | restart => cases hcall
  exact hruns.state rfl

theorem definitionCall_spares {s : Store} (env : Environment) {call : Call}
    (hcall : isDefinitionCall call = true) (hs : Named s.state) (k : String) :
    Spares (s.state.runs.get? k) ((perform env call s).2.state.runs.get? k) := by
  have hspares : SparesFrom k (s.state.runs.get? k) s := ⟨hs, Spares.refl _⟩
  refine (outcomes_spares.perform ?_ hspares).2
  cases call with
  | delete automationId expectedRevision now writes =>
    exact fun s hs hidle => spares_deleted hs now hidle
  | claim => cases hcall
  | runNow => cases hcall
  | markRunning => cases hcall
  | complete => cases hcall
  | completeByBridgeRun => cases hcall
  | completeRuntimeRun => cases hcall
  | restart => cases hcall
  | _ => trivial

theorem Inv.definitionCall (h : Inv w) (env : Environment) {call : Call}
    (hcall : isDefinitionCall call = true) (hdraws : drawsFresh w.store call = true) :
    Inv { w with store := (perform env call w.store).2 } := by
  have hspares := definitionCall_spares env hcall h.consistent.1.named
  apply h.withStore
  · have hnext : Automations.next env w.store call = some (perform env call w.store).2 := by
      unfold Automations.next
      rw [if_pos hdraws]
    exact next_consistent h.consistent hnext
  · intro k record hg
    exact ⟨record, (hspares k).eq_of_some hg, rfl⟩
  · intro k
    exact (h.fits k).spares (hspares k)

/-! ## Every step -/

theorem Inv.next {env : Environment} {w t : World} {step : Step} (h : Inv w)
    (hcareful : isCareful w step = true) (hn : next env w step = some t) : Inv t := by
  cases step with
  | claim i automationId dueAt key expectedRevision capacityAvailable webSearch uuid now writes =>
    rcases Runs.taken hn with ⟨hguard, rfl⟩
    rw [Bool.and_eq_true] at hguard
    exact h.claim hguard.1 (claim_claims env _ _ _ _ _ _ uuid now writes)
  | runNow i automationId capacityAvailable webSearch keyUuid uuid now writes =>
    rcases Runs.taken hn with ⟨hguard, rfl⟩
    rw [Bool.and_eq_true] at hguard
    exact h.claim hguard.1 (runNow_claims env _ _ _ keyUuid uuid now writes)
  | admitRun i =>
    simp only [Dispatch.next] at hn
    split at hn
    · rename_i q hq
      rcases Runs.taken hn with ⟨_, rfl⟩
      exact h.admitRun hq
    · cases hn
  | reject i =>
    simp only [Dispatch.next] at hn
    split at hn
    · rename_i q hq
      rcases Runs.taken hn with ⟨_, rfl⟩
      apply h.reject _ hq
      simpa [isCareful, hq] using hcareful
    · cases hn
  | submit i id threadId =>
    simp only [Dispatch.next] at hn
    split at hn
    · rename_i q hq
      rcases Runs.enabled hn with ⟨hguard, hn⟩
      obtain ⟨hphase, hfresh, hid, hthread⟩ := hguard
      cases hn
      simp only [isCareful, hq, Option.all_some, Bool.and_eq_true] at hcareful
      obtain ⟨hactive, hrejected⟩ := hcareful
      apply h.submit hq hphase (by simpa [Dict.contains] using hfresh) hid hthread
      · obtain ⟨record, hrecord, hlive⟩ := (Option.any_eq_true _ _).mp hactive
        exact ⟨record, hrecord, hlive⟩
      · intro j q' hq' hsame hphase'
        have hother := List.all_eq_true.mp hrejected q' (Dict.mem_values_of_get? hq')
        simp [hsame, hphase'] at hother
    · cases hn
  | markRunning i now writes =>
    simp only [Dispatch.next] at hn
    split at hn
    · rename_i key automationRunId id threadId hq
      cases hn
      simp only [isCareful, hq, Option.all_some, Bool.and_eq_true] at hcareful
      obtain ⟨hwrites, hstatus⟩ := hcareful
      subst hwrites
      refine (h.markRunning env hq rfl ?_ now).1
      intro run hrun
      simpa [hrun] using hstatus
    · cases hn
  | block i now writes =>
    simp only [Dispatch.next] at hn
    split at hn
    · rename_i key automationRunId hq
      cases hn
      exact h.block env hq rfl _ now writes
    · cases hn
  | finish id outcome =>
    simp only [Dispatch.next] at hn
    split at hn
    · rename_i c threadId hrun
      cases hn
      exact h.finish outcome hrun rfl
    · cases hn
  | report id now writes =>
    simp only [Dispatch.next] at hn
    split at hn
    · rename_i c threadId outcome hrun
      cases hn
      exact h.report env hrun rfl now writes
    · cases hn
  | call call =>
    rcases Runs.taken hn with ⟨hguard, rfl⟩
    rw [Bool.and_eq_true] at hguard
    exact h.definitionCall env hguard.1 hguard.2

theorem Inv.sound (h : Inv w) : Sound w := by
  have hstanding : ∀ b run k, w.bridge.runs.get? b = some run →
      run.clientRequestId = dispatchRequestId k →
      Fits (some (b, run.progress)) (w.store.state.runs.get? k) := by
    intro b run k hrun hk
    have hfits := h.fits k
    unfold Bridge.standing at hfits
    rw [(h.indexed.accepted_iff k b run).mpr ⟨hrun, hk⟩] at hfits
    exact hfits
  constructor
  · intro b b' run run' hrun hrun' hsame
    have hid := h.indexed.request b run hrun
    rw [hsame, h.indexed.request b' run' hrun'] at hid
    exact (Option.some.inj hid).symm
  · intro b run k hrun hk hopen
    obtain ⟨record, hrecord, hactive, -⟩ := (hstanding b run k hrun hk).active_of_open hopen
    exact ⟨record, hrecord, hactive⟩
  · intro b run k outcome hrun hk hreported record hrecord
    have hfits := hstanding b run k hrun hk
    rw [hreported, hrecord] at hfits
    cases hfits with
    | opened hopen _ _ => cases hopen
    | reported final => exact (final record rfl).1
  · intro i j q q' record record' hq hq' hkey hrecord hrecord'
    apply h.consistent.1.key_injective hrecord hrecord'
    rw [(h.served i q hq).key record hrecord, (h.served j q' hq').key record' hrecord', hkey]

/-! ## Requests with one key

When every claim carries the same key and no automation is deleted, the record of
the key is never dropped: each call protects the run it names, and no other run is
named. So the requests share one run and the Bridge has at most one.
-/

def Request.ticket (q : Request) : String × String := (q.idempotencyKey, q.automationRunId)

def SameTickets (w t : World) : Prop :=
  ∀ i, (t.requests.get? i).map Request.ticket = (w.requests.get? i).map Request.ticket

theorem SameTickets.back {w t : World} (h : SameTickets w t) {q' : Request}
    (hq : t.requests.get? i = some q') :
      ∃ q, w.requests.get? i = some q ∧ q.ticket = q'.ticket := by
  have hi := h i
  rw [hq, Option.map_some] at hi
  exact Option.map_eq_some_iff.mp hi.symm

theorem SameTickets.forth {w t : World} (h : SameTickets w t) {i : Nat}
    (hq : w.requests.get? i = some q) : ∃ q', t.requests.get? i = some q' ∧ q'.ticket =
      q.ticket := by
  have hi := h i
  rw [hq, Option.map_some] at hi
  exact Option.map_eq_some_iff.mp hi

theorem sameTickets_setPhase (w : World) (i : Nat) (phase : Phase) :
    SameTickets w (w.setPhase i phase) := by
  intro j
  rw [get?_setPhase]
  split
  · cases w.requests.get? j with
    | none => rfl
    | some q => rfl
  · rfl

structure Alone (key : String) (w : World) : Prop where
  inv : Inv w
  keys : ∀ i q, w.requests.get? i = some q → q.idempotencyKey = key
  kept : ∀ i q, w.requests.get? i = some q →
    (w.store.state.runs.get? q.automationRunId).isSome = true
  made : ∀ id run, w.bridge.runs.get? id = some run →
    ∃ i q, w.requests.get? i = some q ∧ run.clientRequestId = dispatchRequestId q.automationRunId

theorem alone_initial (key : String) : Alone key World.initial := by
  refine ⟨inv_initial, ?_, ?_, ?_⟩
  · intro i q hq
    cases hq
  · intro i q hq
    cases hq
  · intro id run hrun
    cases hrun

section

variable {key : String} {w t : World}

theorem Alone.one_ticket (h : Alone key w) {i j : Nat} {q q' : Request}
    (hq : w.requests.get? i = some q) (hq' : w.requests.get? j = some q') :
    q.automationRunId = q'.automationRunId := by
  obtain ⟨record, hrecord⟩ := Option.isSome_iff_exists.mp (h.kept i q hq)
  obtain ⟨record', hrecord'⟩ := Option.isSome_iff_exists.mp (h.kept j q' hq')
  exact h.inv.sound.one_claim i j q q' record record' hq hq'
    ((h.keys i q hq).trans (h.keys j q' hq').symm) hrecord hrecord'

/-- A step that claims nothing keeps the record of the requests. -/
theorem Alone.after (h : Alone key w) (hinv : Inv t) (hsame : SameTickets w t)
    (hkept : ∀ i q, w.requests.get? i = some q →
      (t.store.state.runs.get? q.automationRunId).isSome = true)
    (hmade : ∀ id run', t.bridge.runs.get? id = some run' →
      (∃ run, w.bridge.runs.get? id = some run ∧ run'.clientRequestId = run.clientRequestId) ∨
      ∃ i q, w.requests.get? i = some q ∧
        run'.clientRequestId = dispatchRequestId q.automationRunId) : Alone key t := by
  refine ⟨hinv, ?_, ?_, ?_⟩
  · intro i q' hq'
    obtain ⟨q, hq, hticket⟩ := hsame.back hq'
    rw [← h.keys i q hq]
    exact (congrArg Prod.fst hticket).symm
  · intro i q' hq'
    obtain ⟨q, hq, hticket⟩ := hsame.back hq'
    have hid : q.automationRunId = q'.automationRunId := congrArg Prod.snd hticket
    rw [← hid]
    exact hkept i q hq
  · intro id run' hrun'
    have hrequest : ∃ i q, w.requests.get? i = some q ∧
        run'.clientRequestId = dispatchRequestId q.automationRunId := by
      rcases hmade id run' hrun' with ⟨run, hrun, hc⟩ | hnew
      · obtain ⟨i, q, hq, hrequest⟩ := h.made id run hrun
        exact ⟨i, q, hq, hc.trans hrequest⟩
      · exact hnew
    obtain ⟨i, q, hq, hc⟩ := hrequest
    obtain ⟨q', hq', hticket⟩ := hsame.forth hq
    have hid : q'.automationRunId = q.automationRunId := congrArg Prod.snd hticket
    exact ⟨i, q', hq', by rw [hid, hc]⟩

theorem made_setProgress {b : Bridge} {id id' : String} {p : Progress} {run' : BridgeRun}
    (h : (b.setProgress id p).runs.get? id' = some run') :
    ∃ run, b.runs.get? id' = some run ∧ run'.clientRequestId = run.clientRequestId := by
  simp only [Bridge.setProgress, Dict.get?_update] at h
  split at h
  · obtain ⟨run, hrun, hset⟩ := Option.map_eq_some_iff.mp h
    exact ⟨run, hrun, by rw [← hset]⟩
  · exact ⟨run', h, rfl⟩

/-- A key already in the index is answered with its run and nothing is edited. -/
theorem claim_replay (env : Environment) (automationId dueAt idempotencyKey : String)
    (expectedRevision : Int) (capacityAvailable : Bool) (webSearch : Json) (uuid : String)
    (now : Int) (writes : Bool) {s : Store} {k : String}
    (hk : s.state.idempotency.get? idempotencyKey = some k) :
    (Automations.claim env automationId dueAt idempotencyKey expectedRevision capacityAvailable
      webSearch uuid now writes s).2 = s := by
  have hkeeps : Keeps (fun t => t = s) (Automations.claim env automationId dueAt idempotencyKey
      expectedRevision capacityAvailable webSearch uuid now writes) := by
    apply Keeps.bind Keeps.lift
    intro due
    apply Keeps.bind Keeps.lift
    intro search
    apply Keeps.bind_lift
    intro key hkey
    have hkey' := identifier_eq_ok hkey
    apply Triple.bind (Q := fun found t => found = some k ∧ t = s)
    · apply Triple.read
      intro t ht
      rw [ht, hkey']
      exact ⟨hk, rfl⟩
    intro found
    apply Triple.of_pure
    intro hfound
    rw [hfound]
    exact (findRun_spec k).returns (fun _ _ ht => ht.1)
  exact hkeeps.state rfl

theorem Alone.claim (h : Alone key w) {i : Nat} {uuid : String} {c : StoreAction Run}
    (hunused : w.isUnused ("autrun_" ++ uuid) = true) (hi : w.requests.contains i = false)
    (hc : Claims key uuid c)
    (hreplay : ∀ k, w.store.state.idempotency.get? key = some k → (c w.store).2 = w.store) :
    Alone key (w.claimed i key (c w.store)) := by
  have hfresh : Store.Fresh uuid w.store :=
    ⟨h.inv.consistent, (isUnused_spec hunused).2.1⟩
  have hold : ∀ j q, w.requests.get? j = some q →
      ((c w.store).2.state.runs.get? q.automationRunId).isSome = true := by
    intro j q hq
    have hkept := h.kept j q hq
    obtain ⟨record, hrecord⟩ := Option.isSome_iff_exists.mp hkept
    have hkey := (h.inv.served j q hq).key record hrecord
    have hindex := (h.inv.consistent.1.index key q.automationRunId).mpr
      ⟨record, hrecord, hkey.trans (h.keys j q hq)⟩
    rw [hreplay _ hindex]
    exact hkept
  have hnew : ∀ j q, (w.claimed i key (c w.store)).requests.get? j = some q →
      w.requests.get? j = some q ∨
      q.idempotencyKey = key ∧ ((c w.store).2.state.runs.get? q.automationRunId).isSome = true := by
    intro j q hq
    simp only [World.claimed] at hq
    cases hresult : (c w.store).1 with
    | error e =>
      rw [hresult] at hq
      exact Or.inl hq
    | ok run =>
      rw [hresult] at hq
      simp only [Dict.get?_set] at hq
      split at hq
      · cases hq
        obtain ⟨hstored, -, -⟩ := (hc.returns w.store hfresh).1 run (c w.store).2
          (by rw [← hresult])
        exact Or.inr ⟨rfl, by rw [hstored]; rfl⟩
      · exact Or.inl hq
  refine ⟨h.inv.claim hunused hc, ?_, ?_, ?_⟩
  · intro j q hq
    rcases hnew j q hq with hq' | hq'
    · exact h.keys j q hq'
    · exact hq'.1
  · intro j q hq
    rcases hnew j q hq with hq' | hq'
    · exact hold j q hq'
    · exact hq'.2
  · intro id run hrun
    obtain ⟨j, q, hq, hrequest⟩ := h.made id run hrun
    refine ⟨j, q, ?_, hrequest⟩
    have hne : j ≠ i := by
      intro hj
      rw [hj] at hq
      simp [Dict.contains, hq] at hi
    simp only [World.claimed]
    cases (c w.store).1 with
    | error e => exact hq
    | ok run' =>
      simp only
      rw [Dict.get?_set_of_ne _ _ hne]
      exact hq

theorem Alone.next {env : Environment} {step : Step} (h : Alone key w)
    (hcareful : isCareful w step = true) (hcarries : step.carries key = true)
    (hn : next env w step = some t) : Alone key t := by
  have hinv := h.inv.next hcareful hn
  have hgate : ∀ {b : Bridge}, b.runs = w.bridge.runs → ∀ id run', b.runs.get? id = some run' →
      (∃ run, w.bridge.runs.get? id = some run ∧ run'.clientRequestId = run.clientRequestId) ∨
      ∃ i q, w.requests.get? i = some q ∧
        run'.clientRequestId = dispatchRequestId q.automationRunId := by
    intro b hb id run' hrun'
    rw [hb] at hrun'
    exact Or.inl ⟨run', hrun', rfl⟩
  cases step with
  | claim i automationId dueAt k expectedRevision capacityAvailable webSearch uuid now writes =>
    rcases Runs.taken hn with ⟨hguard, rfl⟩
    simp only [Bool.and_eq_true, Bool.not_eq_true'] at hguard
    have hk : k = key := by simpa [Step.carries] using hcarries
    subst hk
    exact h.claim hguard.1 hguard.2 (claim_claims env _ _ _ _ _ _ uuid now writes)
      fun _ hindex => claim_replay env _ _ _ _ _ _ _ _ _ hindex
  | runNow i automationId capacityAvailable webSearch keyUuid uuid now writes => cases hcarries
  | admitRun i =>
    simp only [Dispatch.next] at hn
    split at hn
    · rename_i q hq
      rcases Runs.taken hn with ⟨_, rfl⟩
      unfold World.admitted at hinv ⊢
      split
      · rename_i haccepted
        rw [haccepted] at hinv
        exact h.after hinv (sameTickets_setPhase w i _) h.kept (hgate rfl)
      rename_i haccepted
      rw [haccepted] at hinv
      simp only at hinv ⊢
      split at hinv
      · rename_i hpending
        rw [if_pos hpending]
        exact h.after hinv (sameTickets_setPhase w i _) h.kept (hgate rfl)
      · rename_i hpending
        rw [if_neg hpending]
        exact h.after hinv (sameTickets_setPhase w i _) h.kept (hgate rfl)
    · cases hn
  | reject i =>
    simp only [Dispatch.next] at hn
    split at hn
    · rename_i q hq
      rcases Runs.taken hn with ⟨_, rfl⟩
      apply h.after hinv (sameTickets_setPhase w i _) h.kept
      apply hgate
      unfold Bridge.release
      split
      · rfl
      · rfl
    · cases hn
  | submit i id threadId =>
    simp only [Dispatch.next] at hn
    split at hn
    · rename_i q hq
      rcases Runs.taken hn with ⟨hguard, rfl⟩
      have hpending := (h.inv.served i q hq).phase
      rw [hguard.1] at hpending
      have haccepted := accepted_of_none (h.inv.indexed.pending _ i hpending)
      have hsubmitted : w.submitted i q id threadId =
          { w.setPhase i (.submitted id threadId) with
            bridge := w.bridge.accept q.automationRunId id threadId } := by
        unfold World.submitted
        simp only
        rw [if_neg (not_not_intro (show _ = some i from hpending)), haccepted]
      rw [hsubmitted] at hinv ⊢
      apply h.after hinv (sameTickets_setPhase w i _) h.kept
      intro id' run' hrun'
      simp only [Bridge.accept, Dict.get?_set] at hrun'
      split at hrun'
      · cases hrun'
        exact Or.inr ⟨i, q, hq, rfl⟩
      · exact Or.inl ⟨run', hrun', rfl⟩
    · cases hn
  | markRunning i now writes =>
    simp only [Dispatch.next] at hn
    split at hn
    · rename_i k automationRunId id threadId hq
      cases hn
      simp only [isCareful, hq, Option.all_some, Bool.and_eq_true] at hcareful
      obtain ⟨hwrites, hstatus⟩ := hcareful
      subst hwrites
      have hpresent := (h.inv.markRunning env hq rfl
        (fun run hrun => by simpa [hrun] using hstatus) now).2
      apply h.after hinv (sameTickets_setPhase w i _) _ (hgate rfl)
      intro j q' hq'
      rw [h.one_ticket hq' hq]
      exact hpresent.trans (h.kept i _ hq)
    · cases hn
  | block i now writes =>
    simp only [Dispatch.next] at hn
    split at hn
    · rename_i k automationRunId hq
      cases hn
      have hserved := h.inv.served i _ hq
      have hfound : HoldsRun automationRunId (w.store.state.runs.get? automationRunId) w.store :=
        rfl
      have hblocked : RunStatus.blocked.isTerminal = true := rfl
      have hholds := (complete_holdsRun env automationRunId hblocked
        (some (.str "automation dispatcher rejected the claim")) now writes
        hserved.identifier).state hfound
      apply h.after hinv (sameTickets_setPhase w i _) _ (hgate rfl)
      intro j q' hq'
      rw [h.one_ticket hq' hq]
      have hafter : (Automations.complete env automationRunId .blocked
          (some (.str "automation dispatcher rejected the claim")) now writes
          w.store).2.state.runs.get? automationRunId = _ := hholds
      simp only [hafter, Option.isSome_map]
      exact h.kept i _ hq
    · cases hn
  | finish id outcome =>
    simp only [Dispatch.next] at hn
    split at hn
    · cases hn
      exact h.after hinv (fun _ => rfl) h.kept fun _ _ hrun' => Or.inl (made_setProgress hrun')
    · cases hn
  | report id now writes =>
    simp only [Dispatch.next] at hn
    split at hn
    · rename_i c threadId outcome hrun
      cases hn
      apply h.after hinv (fun _ => rfl) _ fun _ _ hrun' => Or.inl (made_setProgress hrun')
      intro j q' hq'
      obtain ⟨i, q, hq, hc⟩ := h.made id _ hrun
      obtain ⟨record, -, hafter⟩ := h.inv.reported_record env hrun hc rfl now writes
      rw [h.one_ticket hq' hq]
      simp only [hafter]
      rfl
    · cases hn
  | call call =>
    rcases Runs.taken hn with ⟨hguard, rfl⟩
    rw [Bool.and_eq_true] at hguard
    apply h.after hinv (fun _ => rfl) _ (hgate rfl)
    intro i q hq
    have hdelete : isDeletion call = false := by
      cases call with
      | delete => cases hcarries
      | _ => rfl
    simp only [definitionCall_runs env hguard.1 hdelete]
    exact h.kept i q hq

theorem Alone.one_run (h : Alone key w) {id id' : String} {run run' : BridgeRun}
    (hrun : w.bridge.runs.get? id = some run) (hrun' : w.bridge.runs.get? id' = some run') :
    id = id' := by
  obtain ⟨i, q, hq, hc⟩ := h.made id run hrun
  obtain ⟨j, q', hq', hc'⟩ := h.made id' run' hrun'
  apply h.inv.sound.one_run id id' run run' hrun hrun'
  rw [hc, hc', h.one_ticket hq hq']

end

/-- In a run of careful steps every state is sound, and when every claim carries one key
the Bridge has at most one run. -/
theorem run_sound (env : Environment) (steps : List Step) (w : World)
    (hcareful : Runs.Meets (next env) (fun w s => isCareful w s = true) World.initial steps)
    (h : Runs.exec (next env) World.initial steps = some w) :
    Sound w ∧ ∀ key, (∀ s ∈ steps, s.carries key = true) → ∀ id id' run run',
      w.bridge.runs.get? id = some run → w.bridge.runs.get? id' = some run' → id = id' := by
  have hinv : Inv w :=
    Runs.invariant_of_meets (fun _ _ _ hs hc hn => hs.next hc hn) inv_initial hcareful h
  refine ⟨hinv.sound, ?_⟩
  intro key hcarries id id' run run' hrun hrun'
  have halone : Alone key w :=
    Runs.invariant_of_meets (fun _ _ _ hs hc hn => hs.next hc.1 hc.2 hn) (alone_initial key)
      (hcareful.and_mem hcarries) h
  exact halone.one_run hrun hrun'

/-- The second request is admitted after the runtime has reported the run. -/
def repeatedSteps : List Step :=
  [.call (.create samplePayload "a" 0 true), sampleClaim 0 "1", sampleClaim 1 "2", .admitRun 0,
    .submit 0 "run_1" "t1", .markRunning 0 1893456001000000 true, .finish "run_1" .completed,
    .report "run_1" 1893456002000000 true, .admitRun 1, .markRunning 1 1893456003000000 true]

theorem run_sound_repeatedSteps : ∃ w,
    Runs.exec (next sampleEnvironment) World.initial repeatedSteps = some w ∧
      w.outline = ([.completed], [.reported .completed]) ∧ Sound w := by
  have hrun : (Runs.exec (next sampleEnvironment) World.initial repeatedSteps).any
      (fun w => w.outline = ([.completed], [.reported .completed])) = true := by
    decide +kernel
  obtain ⟨w, hw, houtline⟩ := (Option.any_eq_true _ _).mp hrun
  exact ⟨w, hw, by simpa using houtline,
    (run_sound sampleEnvironment repeatedSteps w (by decide +kernel) hw).1⟩

/-- The second request blocks the record of a run that is live, and the outcome the
runtime reports later is refused. -/
theorem overlappingSteps_blocks : ∃ w t,
    Runs.exec (next sampleEnvironment) World.initial overlappingSteps = some w ∧
      w.outline = ([.blocked], [.live]) ∧ ¬ Sound w ∧
      Runs.exec (next sampleEnvironment) w
        [.finish "run_1" .completed, .report "run_1" 1893456004000000 true] = some t ∧
      t.outline = ([.blocked], [.reported .completed]) := by
  have hrun : (Runs.exec (next sampleEnvironment) World.initial overlappingSteps).any
      (fun w => w.outline = ([.blocked], [.live]) ∧
        (w.bridge.runs.get? "run_1").any (fun run => run.progress.isOpen &&
          run.clientRequestId = dispatchRequestId "autrun_1") = true ∧
        ((w.store.state.runs.get? "autrun_1").any fun record => record.status = .blocked) = true ∧
        (Runs.exec (next sampleEnvironment) w
          [.finish "run_1" .completed, .report "run_1" 1893456004000000 true]).any
            (fun t => t.outline = ([.blocked], [.reported .completed])) = true) = true := by
    decide +kernel
  obtain ⟨w, hw, hall⟩ := (Option.any_eq_true _ _).mp hrun
  obtain ⟨houtline, hbridge, hblocked, hlater⟩ := of_decide_eq_true hall
  obtain ⟨t, ht, htoutline⟩ := (Option.any_eq_true _ _).mp hlater
  refine ⟨w, t, hw, houtline, ?_, ht, of_decide_eq_true htoutline⟩
  intro hsound
  obtain ⟨run, hget, hrun'⟩ := (Option.any_eq_true _ _).mp hbridge
  rw [Bool.and_eq_true, decide_eq_true_eq] at hrun'
  obtain ⟨record, hrecord, hactive⟩ :=
    hsound.stays_active "run_1" run "autrun_1" hget hrun'.2 hrun'.1
  rw [hrecord, Option.any_some, decide_eq_true_eq] at hblocked
  rw [hblocked] at hactive
  cases hactive

end CodexBridge.Automations.Dispatch
