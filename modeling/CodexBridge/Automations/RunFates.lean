import CodexBridge.Automations.Timing

/-! # What a call does to one stored run

A call changes the run it names and leaves every other alone, unless pruning or
the deletion of its automation drops it; an active run is never dropped. Both hold
however the call leaves, because an edit stays when the write after it fails.
-/

namespace CodexBridge.Automations

open Effect

/-! ## Runs a call does not name -/

def Spares (before after : Option Run) : Prop :=
  after = before ∨ after = none ∧ ∀ run, before = some run → run.status.isActive = false

theorem Spares.refl (before : Option Run) : Spares before before := Or.inl rfl

theorem Spares.trans {a b c : Option Run} (hab : Spares a b) (hbc : Spares b c) : Spares a c := by
  cases hbc with
  | inl hsame =>
    rw [hsame]
    exact hab
  | inr hdrop =>
    refine Or.inr ⟨hdrop.1, ?_⟩
    intro run hrun
    cases hab with
    | inl hsame => exact hdrop.2 run (by rw [hsame, hrun])
    | inr hgone => exact hgone.2 run hrun

theorem Spares.of_active {before after : Option Run} {run : Run} (h : Spares before after)
    (hrun : before = some run) (hactive : run.status.isActive = true) : after = some run := by
  cases h with
  | inl hsame => rw [hsame, hrun]
  | inr hdrop =>
    have hidle := hdrop.2 run hrun
    rw [hactive] at hidle
    cases hidle

theorem Spares.eq_of_some {before after : Option Run} {run : Run} (h : Spares before after)
    (hrun : after = some run) : before = some run := by
  cases h with
  | inl hsame => rw [← hsame, hrun]
  | inr hdrop =>
    rw [hdrop.1] at hrun
    cases hrun

def Named (s : State) : Prop := ∀ k r, s.runs.get? k = some r → r.automationRunId = k

theorem Consistent.named {s : State} (h : Consistent s) : Named s := h.run_id

/-- What is known of the run under `k` in the middle of a call that does not name it. -/
def SparesFrom (k : String) (before : Option Run) (s : Store) : Prop :=
  Named s.state ∧ Spares before (s.state.runs.get? k)

theorem settled_of_mem_prunedRuns {env : Environment} {protectedIds : List String} {s : State}
    {k : String} (h : k ∈ prunedRuns env protectedIds s) :
    k ∉ protectedIds ∧ ∃ r ∈ s.runs.values, isSettled r = true ∧ r.automationRunId = k := by
  have hlimit : ∀ (limit : Nat) (runs : List Run),
      (∀ r ∈ runs, r ∈ s.runs.values ∧ isSettled r = true) →
      k ∈ beyondLimit limit protectedIds runs →
      k ∉ protectedIds ∧ ∃ r ∈ s.runs.values, isSettled r = true ∧ r.automationRunId = k := by
    intro limit runs hruns hm
    refine ⟨fun hk => beyondLimit_not_mem hk hm, ?_⟩
    obtain ⟨r, hr, hid⟩ := List.mem_map.mp hm
    have hsorted := (List.mem_insertionSort _).mp (List.mem_of_mem_drop hr)
    have hcandidate := List.mem_of_mem_filter hsorted
    exact ⟨r, (hruns r hcandidate).1, (hruns r hcandidate).2, hid⟩
  unfold prunedRuns at h
  simp only [List.mem_append, List.mem_flatMap] at h
  cases h with
  | inl hover =>
    obtain ⟨a, _, hm⟩ := hover
    refine hlimit _ _ ?_ hm
    intro r hr
    exact List.mem_filter.mp (List.mem_of_mem_filter hr)
  | inr htotal =>
    refine hlimit _ _ ?_ htotal
    intro r hr
    obtain ⟨k', hg⟩ := (Dict.mem_values_iff _ r).mp hr
    obtain ⟨hstored, hp⟩ := (Dict.get?_filter_eq_some_iff _ _ _ _).mp hg
    simp only [Bool.and_eq_true] at hp
    exact ⟨Dict.mem_values_of_get? hstored, hp.2⟩

theorem isActive_of_isSettled {run : Run} (h : isSettled run = true) :
    run.status.isActive = false := by
  unfold isSettled at h
  cases hactive : run.status.isActive with
  | false => rfl
  | true => simp [hactive] at h

variable (env : Environment)

theorem pruneRuns_get? (protectedIds : List String) (s : State)
    (k : String) : (pruneRuns env protectedIds s).runs.get? k =
      if k ∈ prunedRuns env protectedIds s then none else s.runs.get? k := by
  unfold pruneRuns
  simp only
  split
  · rename_i hempty
    rw [List.isEmpty_iff] at hempty
    rw [hempty, if_neg List.not_mem_nil]
  simp only [rebuildIdempotency, Dict.get?_filter]
  split
  · rename_i hm
    cases s.runs.get? k with
    | none => rfl
    | some r => simp [Option.filter, hm]
  · rename_i hm
    cases s.runs.get? k with
    | none => rfl
    | some r => simp [Option.filter, hm]

theorem Named.pruneRuns {s : State} (h : Named s) (env : Environment)
    (protectedIds : List String) : Named (pruneRuns env protectedIds s) := by
  intro k r hg
  rw [pruneRuns_get?] at hg
  split at hg
  · cases hg
  · exact h k r hg

theorem pruneRuns_spares {s : State} (h : Named s) (env : Environment)
    (protectedIds : List String) (k : String) :
    Spares (s.runs.get? k) ((pruneRuns env protectedIds s).runs.get? k) := by
  rw [pruneRuns_get?]
  split
  · rename_i hm
    refine Or.inr ⟨rfl, ?_⟩
    intro run hrun
    obtain ⟨-, r, hr, hsettled, hid⟩ := settled_of_mem_prunedRuns hm
    obtain ⟨k', hg⟩ := (Dict.mem_values_iff _ r).mp hr
    have hk : k' = k := by rw [← h k' r hg, hid]
    rw [hk, hrun] at hg
    cases hg
    exact isActive_of_isSettled hsettled
  · exact Spares.refl _

section

variable {k : String} {before : Option Run}

theorem keeps_spares_edit {f : State → State}
    (h : ∀ s, Named s → Named (f s) ∧ Spares (s.runs.get? k) ((f s).runs.get? k)) :
    Keeps (SparesFrom k before) (edit f) := by
  apply Keeps.modify
  intro s hs
  obtain ⟨hnamed, hspares⟩ := h s.state hs.1
  exact ⟨hnamed, hs.2.trans hspares⟩

theorem Named.update {s : State} (h : Named s) {runId : String} {f : Run → Run}
    (hf : ∀ r, s.runs.get? runId = some r → (f r).automationRunId = r.automationRunId) :
    Named { s with runs := s.runs.update runId f } := by
  intro k r hg
  simp only [Dict.get?_update] at hg
  split at hg
  · rename_i hk
    obtain ⟨r', hg', hr⟩ := Option.map_eq_some_iff.mp hg
    rw [hk] at hg'
    rw [← hr, hf r' hg', hk]
    exact h runId r' hg'
  · exact h k r hg

theorem Named.recordClaim {s : State} (h : Named s) (automationId : String) (run : Run) :
    Named (recordClaim automationId run s) := by
  intro k r hg
  simp only [Automations.recordClaim, Dict.get?_set] at hg
  split at hg
  · rename_i hk
    cases hg
    exact hk.symm
  · exact h k r hg

/-- Edits that allow another run than `k` spare the run `k`. -/
theorem outcomes_spares : Outcomes (SparesFrom k before) (k ≠ ·) where
  define := Aside.of_runs (I := fun runs => (∀ k r, runs.get? k = some r →
    r.automationRunId = k) ∧ Spares before (runs.get? k)).define
  touch := fun _ _ _ => Keeps.modify fun _ hs => hs
  requests := (Aside.of_runs (I := fun runs => (∀ k r, runs.get? k = some r →
    r.automationRunId = k) ∧ Spares before (runs.get? k))).requests
  persist := fun _ hs => hs
  pruneRuns := fun env protectedIds => keeps_spares_edit fun _ hs =>
    ⟨hs.pruneRuns env protectedIds, pruneRuns_spares hs env protectedIds k⟩
  editRun := by
    intro runId f hk run hf
    apply Triple.modify
    intro s hs
    refine ⟨hs.1.1.update ?_, ?_⟩
    · intro r hr
      rw [hs.2] at hr
      cases hr
      exact hf.run_id
    · simp only [Dict.get?_update, if_neg hk]
      exact hs.1.2

theorem storesClaim_spares (env : Environment) (automationId : String) {uuid : String}
    (now : Int) (hk : k ≠ "autrun_" ++ uuid) :
    StoresClaim (SparesFrom k before) (SparesFrom k before) env automationId uuid now := by
  refine ⟨fun _ hs => hs, ?_⟩
  intro request record status s hs _
  refine ⟨hs.1.recordClaim automationId _, ?_⟩
  simp only [recordClaim, Dict.get?_set, claimedRun, if_neg hk]
  exact hs.2

theorem spares_deleted {s : Store} (hs : SparesFrom k before s) {automationId : String}
    (now : Int) (hidle : hasActiveRun s.state automationId = false) :
    SparesFrom k before { s with state := deleted automationId now s.state } := by
  obtain ⟨hnamed, hspares⟩ := hs
  refine ⟨?_, hspares.trans ?_⟩
  · intro k' r hg
    simp only [deleted, rebuildIdempotency, Dict.get?_filter_eq_some_iff] at hg
    exact hnamed k' r hg.1
  simp only [deleted, rebuildIdempotency, Dict.get?_filter]
  cases hrun : s.state.runs.get? k with
  | none => exact Spares.refl _
  | some run =>
    by_cases howner : run.automationId = automationId
    · refine Or.inr ⟨by simp [Option.filter, howner], ?_⟩
      intro run' hrun'
      cases hrun'
      cases hlive : run.status.isActive with
      | false => rfl
      | true =>
        have hany : hasActiveRun s.state automationId = true :=
          List.any_eq_true.mpr
            ⟨run, Dict.mem_values_of_get? hrun, by simp [howner, hlive]⟩
        rw [hany] at hidle
        cases hidle
    · exact Or.inl (by simp [Option.filter, howner])

end

/-! ## The run a call names -/

def HoldsRun (k : String) (found : Option Run) (s : Store) : Prop :=
  s.state.runs.get? k = found

section

variable {k : String} {found : Option Run}

theorem keeps_holdsRun_edit {f : State → State}
    (h : ∀ s, s.runs.get? k = found → (f s).runs.get? k = found) :
    Keeps (HoldsRun k found) (edit f) := by
  apply Keeps.modify
  intro s hs
  exact h s.state hs

theorem keeps_holdsRun_editAutomation {automationId : String} {f : Automation → Automation} :
    Keeps (HoldsRun k found) (editAutomation automationId f) :=
  keeps_holdsRun_edit fun _ hs => hs

theorem aside_holdsRun : Aside (HoldsRun k found) :=
  Aside.of_runs (I := fun runs => runs.get? k = found)

variable (env : Environment)

theorem keeps_holdsRun_pruneRuns {protectedIds : List String} (hk : k ∈ protectedIds) :
    Keeps (HoldsRun k found) (edit (pruneRuns env protectedIds)) := by
  apply keeps_holdsRun_edit
  intro s hs
  rw [pruneRuns_get?, if_neg fun hm => (settled_of_mem_prunedRuns hm).1 hk]
  exact hs

theorem findRun_holdsRun {runId : String} {run : Run} (hid : isIdentifier runId = true)
    {E : AutomationError → Store → Prop} :
    Triple (HoldsRun runId (some run)) (findRun runId)
      (fun r s => r = run ∧ HoldsRun runId (some run) s) E := by
  intro s hs
  rw [findRun_of_some hid hs]
  refine ⟨?_, ?_⟩
  · intro r t ht
    cases ht
    exact ⟨rfl, hs⟩
  · intro e t ht
    cases ht

theorem findRun_holdsRun_none {runId : String} {Q : Run → Store → Prop} :
    Triple (HoldsRun runId none) (findRun runId) Q fun _ => HoldsRun runId none := by
  refine (findRun_spec runId).returns ?_
  intro run s hs
  have hnone := hs.1.symm.trans hs.2
  cases hnone

theorem editRun_holdsRun {run : Run} {f : Run → Run} {E : AutomationError → Store → Prop} :
    Triple (HoldsRun k (some run)) (editRun k f) (fun _ => HoldsRun k (some (f run))) E := by
  apply Triple.modify
  intro s hs
  unfold HoldsRun at hs ⊢
  simp only [Dict.get?_update, hs]
  rfl

def afterComplete (status : RunStatus) (error : Option Json) (now : Int) (run : Run) : Run :=
  if run.status.isActive then completedRun status error now run else run

/-- The outcome is in memory even when a later step of `complete` raises. -/
theorem complete_holdsRun (runId : String) {status : RunStatus}
    (hterminal : status.isTerminal = true) (error : Option Json) (now : Int) (writes : Bool)
    (hid : isIdentifier runId = true) :
    Triple (HoldsRun runId found) (complete env runId status error now writes)
      (fun _ => HoldsRun runId (found.map (afterComplete status error now)))
      (fun _ => HoldsRun runId (found.map (afterComplete status error now))) := by
  apply Triple.bind_require_of hterminal
  cases found with
  | none =>
    apply Triple.bind (Q := fun _ _ => False) findRun_holdsRun_none
    intro run s hs
    exact hs.elim
  | some before =>
    apply Triple.bind (findRun_holdsRun hid)
    intro run
    apply Triple.of_pure
    intro hrun
    subst hrun
    simp only [Option.map_some, afterComplete]
    cases hactive : run.status.isActive with
    | false => exact Triple.bind_require_of_not rfl fun _ hs => hs
    | true =>
      apply Triple.bind_require_of rfl
      apply Triple.bind editRun_holdsRun
      intro _
      apply Keeps.bind (keeps_findAutomation run.automationId)
      intro _
      apply Keeps.bind keeps_holdsRun_editAutomation
      intro _
      apply Keeps.bind (keeps_holdsRun_pruneRuns env (List.mem_singleton.mpr rfl))
      intro _
      exact Keeps.bind (aside_holdsRun.save env writes) fun _ => Keeps.pure

theorem completeRuntimeRun_holdsRun {bridgeRunId clientRequestId : String}
    {runId : String} {run : Run} {status : RunStatus} (hterminal : status.isTerminal = true)
    (hrequest : automationRunIdOf clientRequestId = some runId)
    (hid : isIdentifier runId = true) (hbridge : isIdentifier bridgeRunId = true)
    (hactive : run.status.isActive = true)
    (hlink : run.bridgeRunId = none ∨ run.bridgeRunId = some bridgeRunId)
    (error : Option Json) (now : Int) (writes : Bool) :
    let linked := { run with bridgeRunId := some bridgeRunId }
    Triple (HoldsRun runId (some run))
      (completeRuntimeRun env bridgeRunId clientRequestId true status error now writes)
      (fun _ => HoldsRun runId (some (completedRun status error now linked)))
      (fun _ => HoldsRun runId (some (completedRun status error now linked))) := by
  intro linked
  have hcompleted : afterComplete status error now linked = completedRun status error now linked :=
    if_pos hactive
  unfold completeRuntimeRun
  apply Triple.bind_require_of hterminal
  rw [hrequest]
  apply Triple.bind_require_of rfl
  apply Triple.bind_lift_of (identifier_of_isIdentifier hbridge _)
  apply Triple.bind (Q := fun r s => r = run ∧ HoldsRun runId (some run) s)
  · apply Triple.attempt (F := fun _ _ => False) (findRun_holdsRun hid)
    intro e s hs
    exact hs.elim
  intro r
  apply Triple.of_pure
  intro hr
  subst hr
  apply Triple.bind_require_of (decide_eq_true hlink)
  rw [if_pos hactive]
  apply Triple.bind editRun_holdsRun
  intro _
  have hcomplete : Triple (HoldsRun runId (some linked)) _ _ _ :=
    complete_holdsRun env runId hterminal error now writes hid
  rw [Option.map_some, hcompleted] at hcomplete
  exact hcomplete

/-- The run `mark_running` leaves when it was queued. -/
def startedRun (bridgeRunId threadId : String) (now : Int) (run : Run) : Run :=
  { run with
    status := .running
    dispatchable := false
    startedAt := some (iso now)
    bridgeRunId := some bridgeRunId
    threadId := some threadId }

theorem optionalIdentifier_some {value : String} (h : isIdentifier value = true)
    (field : String) : optionalIdentifier (some value) field = .ok (some value) := by
  simp [optionalIdentifier, identifier_of_isIdentifier h, Except.map]

theorem save_holdsRun {E : AutomationError → Store → Prop} :
    Triple (HoldsRun k found) (save env true) (fun _ => HoldsRun k found) E := by
  apply Triple.bind (Q := fun _ => HoldsRun k found)
  · apply Triple.modify
    intro s hs
    unfold HoldsRun at hs ⊢
    simp only [pruneCreateRequests_runs]
    exact hs
  intro _
  apply Triple.bind_require_of rfl
  apply Triple.modify
  intro s hs
  exact hs

theorem markRunning_queued {runId bridgeRunId threadId : String} {run : Run}
    (hid : isIdentifier runId = true) (hbridge : isIdentifier bridgeRunId = true)
    (hthread : isIdentifier threadId = true) (hqueued : run.status = .queued) (now : Int) :
    Triple (HoldsRun runId (some run))
      (markRunning env runId (some bridgeRunId) (some threadId) now true)
      (fun r s => r = startedRun bridgeRunId threadId now run ∧ HoldsRun runId (some r) s)
      fun _ _ => False := by
  apply Triple.bind (findRun_holdsRun hid)
  intro r
  apply Triple.of_pure
  intro hr
  subst hr
  apply Triple.bind_lift_of (optionalIdentifier_some hbridge _)
  apply Triple.bind_lift_of (optionalIdentifier_some hthread _)
  rw [if_pos hqueued]
  apply Triple.bind editRun_holdsRun
  intro _
  apply Triple.bind (save_holdsRun env)
  intro _
  refine (findRun_holdsRun hid).returns ?_
  intro started s hs
  rw [hs.1]
  exact ⟨rfl, hs.2⟩

/-- The parts of a run that a late `mark_running` leaves alone. -/
structure SameOutcome (run run' : Run) : Prop where
  status : run'.status = run.status
  bridge : run'.bridgeRunId = run.bridgeRunId
  key : run'.idempotencyKey = run.idempotencyKey

theorem markRunning_settled {runId : String} {run : Run}
    (hid : isIdentifier runId = true) (hqueued : run.status ≠ .queued)
    (bridgeRunId threadId : Option String) (now : Int) (writes : Bool) :
    Triple (HoldsRun runId (some run)) (markRunning env runId bridgeRunId threadId now writes)
      (fun _ s => ∃ run', HoldsRun runId (some run') s ∧ SameOutcome run run')
      (fun _ s => ∃ run', HoldsRun runId (some run') s ∧ SameOutcome run run') := by
  have hsame : ∀ s, HoldsRun runId (some run) s →
      ∃ run', HoldsRun runId (some run') s ∧ SameOutcome run run' :=
    fun s hs => ⟨run, hs, rfl, rfl, rfl⟩
  apply Triple.bind (findRun_holdsRun hid)
  intro r
  apply Triple.of_pure
  intro hr
  subst hr
  apply Triple.bind_lift fun _ s hs => hsame s hs
  intro bridge _
  apply Triple.bind_lift fun _ s hs => hsame s hs
  intro thread _
  rw [if_neg hqueued]
  apply Triple.bind_require fun s hs => hsame s hs
  intro _
  split
  · let linked := { r with startedAt := some (iso now), threadId := thread }
    have hlinked : ∀ s, HoldsRun runId (some linked) s →
        ∃ run', HoldsRun runId (some run') s ∧ SameOutcome r run' :=
      fun s hs => ⟨linked, hs, rfl, rfl, rfl⟩
    refine Triple.weaken (Q := fun _ => HoldsRun runId (some linked))
      (E := fun _ => HoldsRun runId (some linked)) ?_ (fun _ hs => hs)
      (fun _ s hs => hlinked s hs) fun _ s hs => hlinked s hs
    apply Triple.bind editRun_holdsRun
    intro _
    apply Keeps.bind (keeps_holdsRun_pruneRuns env (List.mem_singleton.mpr rfl))
    intro _
    apply Keeps.bind (aside_holdsRun.save env writes)
    intro _
    exact (findRun_holdsRun hid).returns (fun _ _ hs => hs.2)
  · exact Triple.pure fun s hs => hsame s hs

theorem markRunning_absent (runId : String)
    (bridgeRunId threadId : Option String) (now : Int) (writes : Bool) :
    Triple (HoldsRun runId none) (markRunning env runId bridgeRunId threadId now writes)
      (fun _ => HoldsRun runId none) fun _ => HoldsRun runId none := by
  apply Triple.bind (Q := fun _ _ => False) findRun_holdsRun_none
  intro run s hs
  exact hs.elim

end

def Unlinked (k : String) (s : Store) : Prop :=
  ∀ run, s.state.runs.get? k = some run → run.bridgeRunId = none

theorem unlinked_of_absent {k : String} {s : Store} (h : HoldsRun k none s) : Unlinked k s := by
  intro run hrun
  rw [h] at hrun
  cases hrun

theorem unlinked_of_holdsRun {k : String} {run : Run} {s : Store} (h : HoldsRun k (some run) s)
    (hlink : run.bridgeRunId = none) : Unlinked k s := by
  intro run' hrun
  rw [h] at hrun
  cases hrun
  exact hlink

def ReturnsClaim (key k : String) (run : Run) (s : Store) : Prop :=
  s.state.runs.get? run.automationRunId = some run ∧ run.idempotencyKey = key ∧ Unlinked k s

theorem claimNew_returns (automationId : String) (request : ClaimRequest)
    (expectedRevision : Int) (uuid : String) (now : Int) (writes : Bool) :
    Triple (HoldsRun ("autrun_" ++ uuid) none)
      (claimNew env automationId request expectedRevision uuid now writes)
      (ReturnsClaim request.idempotencyKey ("autrun_" ++ uuid))
      fun _ => Unlinked ("autrun_" ++ uuid) := by
  have habsent : ∀ s, HoldsRun ("autrun_" ++ uuid) none s → Unlinked ("autrun_" ++ uuid) s :=
    fun _ hs => unlinked_of_absent hs
  apply Triple.bind (Q := fun _ => HoldsRun ("autrun_" ++ uuid) none)
  · exact (keeps_findAutomation automationId).weaken (fun _ hs => hs)
      (fun _ _ hs => hs) fun _ s hs => habsent s hs
  intro record
  apply Triple.bind_require (E := fun _ => Unlinked ("autrun_" ++ uuid)) fun s hs => habsent s hs
  intro _
  apply Triple.bind (Q := fun _ => HoldsRun ("autrun_" ++ uuid) none)
  · exact Triple.read fun _ hs => hs
  intro status
  let run := claimedRun ("autrun_" ++ uuid) automationId record request status now
  apply Triple.bind (Q := fun _ => HoldsRun ("autrun_" ++ uuid) (some run))
  · apply Triple.modify
    intro s hs
    simp only [HoldsRun, recordClaim]
    exact Dict.get?_set_self _ _ _
  intro _
  refine Triple.weaken (Q := fun r s => r = run ∧ HoldsRun ("autrun_" ++ uuid) (some run) s)
    (E := fun _ => HoldsRun ("autrun_" ++ uuid) (some run)) ?_ (fun _ hs => hs) ?_ ?_
  · have hrest : Triple (HoldsRun ("autrun_" ++ uuid) (some run)) (do
        editAutomation automationId fun r => { r with updatedAt := iso now }
        edit (pruneRuns env ["autrun_" ++ uuid])
        save env writes
        pure run : StoreAction Run)
        (fun r s => r = run ∧ HoldsRun ("autrun_" ++ uuid) (some run) s)
        fun _ => HoldsRun ("autrun_" ++ uuid) (some run) := by
      apply Triple.bind keeps_holdsRun_editAutomation
      intro _
      apply Triple.bind (keeps_holdsRun_pruneRuns env (List.mem_singleton.mpr rfl))
      intro _
      apply Triple.bind (aside_holdsRun.save env writes)
      intro _
      exact Triple.pure fun _ hs => ⟨rfl, hs⟩
    cases request.source with
    | manual => exact hrest
    | scheduled =>
      apply Triple.bind_lift fun _ _ hs => hs
      intro next _
      apply Triple.bind keeps_holdsRun_editAutomation
      intro _
      exact hrest
  · intro r s hs
    obtain ⟨hr, hs⟩ := hs
    subst hr
    exact ⟨hs, rfl, unlinked_of_holdsRun hs rfl⟩
  · intro _ s hs
    exact unlinked_of_holdsRun hs rfl

/-- Also a retried claim: the index leads to the run of the key. -/
theorem claimKeyed_returns (automationId : String) (request : ClaimRequest)
    (expectedRevision : Int) (uuid : String) (now : Int) (writes : Bool) :
    Triple (Store.Fresh uuid)
      (claimKeyed env automationId request expectedRevision uuid now writes)
      (ReturnsClaim request.idempotencyKey ("autrun_" ++ uuid))
      fun _ => Unlinked ("autrun_" ++ uuid) := by
  apply Triple.bind_lift fun _ _ hs => unlinked_of_absent hs.2
  intro key hkey
  have hkey' := identifier_eq_ok hkey
  apply Triple.bind
  · exact Triple.read (Q := fun found s => s.Fresh uuid ∧
      s.state.idempotency.get? key = found) fun s hs => ⟨hs, rfl⟩
  intro found
  cases found with
  | none =>
    exact (claimNew_returns env automationId request expectedRevision uuid now writes).weaken
      (fun _ hs => hs.1.2) (fun _ _ hs => hs) fun _ _ hs => hs
  | some existingId =>
    refine (findRun_spec existingId).weaken (fun _ hs => hs) ?_
      fun _ _ hs => unlinked_of_absent hs.1.2
    intro run s hs
    obtain ⟨⟨⟨hconsistent, hfresh⟩, hindex⟩, hrun⟩ := hs
    obtain ⟨run', hrun', hkeys⟩ := (hconsistent.1.index key existingId).mp hindex
    rw [hrun] at hrun'
    cases hrun'
    refine ⟨?_, hkeys.trans hkey', unlinked_of_absent hfresh⟩
    rw [hconsistent.1.run_id existingId run hrun]
    exact hrun

/-- What the two ways of claiming leave: agreement, the claimed run, and every other run. -/
structure Claims (key uuid : String) (c : StoreAction Run) : Prop where
  consistent : Triple (Store.Fresh uuid) c (fun _ => Store.Consistent) fun _ => Store.Consistent
  returns : Triple (Store.Fresh uuid) c (ReturnsClaim key ("autrun_" ++ uuid))
    fun _ => Unlinked ("autrun_" ++ uuid)
  spares : ∀ k, k ≠ "autrun_" ++ uuid → ∀ before, Keeps (SparesFrom k before) c

theorem claim_claims (automationId dueAt idempotencyKey : String)
    (expectedRevision : Int) (capacityAvailable : Bool) (webSearch : Json) (uuid : String)
    (now : Int) (writes : Bool) :
    Claims idempotencyKey uuid (claim env automationId dueAt idempotencyKey expectedRevision
      capacityAvailable webSearch uuid now writes) := by
  refine ⟨outcomes_consistent.claim (storesClaim_fresh env automationId uuid now) _ _ _ _ _ _,
    ?_, fun k hk before => outcomes_spares.claim
      (storesClaim_spares env automationId now hk) _ _ _ _ _ _⟩
  apply Triple.bind_lift fun _ _ hs => unlinked_of_absent hs.2
  intro due _
  apply Triple.bind_lift fun _ _ hs => unlinked_of_absent hs.2
  intro search _
  exact claimKeyed_returns env automationId _ expectedRevision uuid now writes

theorem runNow_claims (automationId : String) (capacityAvailable : Bool)
    (webSearch : Json) (keyUuid uuid : String) (now : Int) (writes : Bool) :
    Claims ("manual:" ++ automationId ++ ":" ++ keyUuid) uuid
      (runNow env automationId capacityAvailable webSearch keyUuid uuid now writes) := by
  refine ⟨outcomes_consistent.runNow (storesClaim_fresh env automationId uuid now) _ _ _ _,
    ?_, fun k hk before => outcomes_spares.runNow
      (storesClaim_spares env automationId now hk) _ _ _ _⟩
  apply Triple.bind (Q := fun _ => Store.Fresh uuid)
  · exact (findAutomation_spec automationId).weaken (fun _ hs => hs) (fun _ _ hs => hs.1)
      fun _ _ hs => unlinked_of_absent hs.2
  intro record
  apply Triple.bind_lift fun _ _ hs => unlinked_of_absent hs.2
  intro search _
  exact claimKeyed_returns env automationId _ record.revision uuid now writes

end CodexBridge.Automations
