import CodexBridge.Automations.Store

/-! # The edits a call is made of

Every call finds records, edits the state, prunes and saves. What these edits keep
the whole call keeps, so a property of the store is checked against the edits once
and every call follows.
-/

namespace CodexBridge.Automations

open Effect

/-! ## Identifiers -/

def isIdentifier (value : String) : Bool :=
  PyText.isTrimmed value && PyText.utf8Length value ≤ 256

theorem identifier_of_isIdentifier {value : String} (h : isIdentifier value = true)
    (field : String) : identifier value field = .ok value := by
  unfold identifier text
  simp only [Json.str?]
  exact if_pos h

theorem isIdentifier_of_ok {value field s : String} (h : identifier value field = .ok s) :
    isIdentifier value = true := by
  unfold identifier text at h
  simp only [Json.str?] at h
  split at h
  · assumption
  · cases h

theorem findAutomation_spec {I : Store → Prop} (automationId : String) :
    Triple I (findAutomation automationId)
      (fun record s => I s ∧ s.state.automations.get? automationId = some record)
      (fun _ => I) := by
  apply Triple.bind (Q := fun id s => I s ∧ id = automationId)
  · exact Triple.lift (fun id s hs hid => ⟨hs, identifier_eq_ok hid⟩) fun _ s hs _ => hs
  intro id
  apply Triple.bind
    (Q := fun found s => I s ∧ s.state.automations.get? automationId = found)
  · apply Triple.read
    intro s hs
    exact ⟨hs.1, by rw [hs.2]⟩
  · intro found
    cases found with
    | none => exact Triple.raise fun s hs => hs.1
    | some record => exact Triple.pure fun s hs => hs

theorem findRun_spec {I : Store → Prop} (runId : String) :
    Triple I (findRun runId)
      (fun run s => I s ∧ s.state.runs.get? runId = some run) (fun _ => I) := by
  apply Triple.bind (Q := fun id s => I s ∧ id = runId)
  · exact Triple.lift (fun id s hs hid => ⟨hs, identifier_eq_ok hid⟩) fun _ s hs _ => hs
  intro id
  apply Triple.bind (Q := fun found s => I s ∧ s.state.runs.get? runId = found)
  · apply Triple.read
    intro s hs
    exact ⟨hs.1, by rw [hs.2]⟩
  · intro found
    cases found with
    | none => exact Triple.raise fun s hs => hs.1
    | some run => exact Triple.pure fun s hs => hs

theorem findRun_identified {I : Store → Prop} (runId : String) :
    Triple I (findRun runId)
      (fun run s => (I s ∧ s.state.runs.get? runId = some run) ∧ isIdentifier runId = true)
      fun _ => I := by
  cases hid : isIdentifier runId with
  | true =>
    exact (findRun_spec runId).returns (fun _ _ hs => ⟨hs, rfl⟩)
  | false =>
    apply Triple.bind_lift fun _ _ hs => hs
    intro id hok
    rw [isIdentifier_of_ok hok] at hid
    cases hid

theorem findAutomation_identified {I : Store → Prop} (automationId : String) :
    Triple I (findAutomation automationId)
      (fun record s => (I s ∧ s.state.automations.get? automationId = some record) ∧
        isIdentifier automationId = true)
      fun _ => I := by
  cases hid : isIdentifier automationId with
  | true =>
    exact (findAutomation_spec automationId).returns (fun _ _ hs => ⟨hs, rfl⟩)
  | false =>
    apply Triple.bind_lift fun _ _ hs => hs
    intro id hok
    rw [isIdentifier_of_ok hok] at hid
    cases hid

theorem findRun_of_some {s : Store} {runId : String} {run : Run} (hid : isIdentifier runId = true)
    (hrun : s.state.runs.get? runId = some run) : findRun runId s = (.ok run, s) := by
  unfold findRun
  rw [identifier_of_isIdentifier hid, bind_run_of_ok (lift_run _ s), bind_read_run, hrun]
  rfl

theorem keeps_findAutomation {P : Store → Prop} (automationId : String) :
    Keeps P (findAutomation automationId) :=
  (findAutomation_spec automationId).returns (fun _ _ hs => hs.1)

theorem keeps_findRun {P : Store → Prop} (runId : String) : Keeps P (findRun runId) :=
  (findRun_spec runId).returns (fun _ _ hs => hs.1)

/-- What an edit of a run may not change: what it belongs to, that an inactive run
stays inactive, and that dispatchable means queued. -/
structure KeepsClaim (f : Run → Run) (r : Run) : Prop where
  run_id : (f r).automationRunId = r.automationRunId
  automation_id : (f r).automationId = r.automationId
  key : (f r).idempotencyKey = r.idempotencyKey
  active : (f r).status.isActive = true → r.status.isActive = true
  dispatchable : (r.dispatchable = true ↔ r.status = .queued) →
    ((f r).dispatchable = true ↔ (f r).status = .queued)

theorem completedRun_keepsClaim {status : RunStatus} (h : status.isTerminal = true)
    (error : Option Json) (now : Int) (r : Run) :
    KeepsClaim (completedRun status error now) r := by
  constructor
  · rfl
  · rfl
  · rfl
  · intro hactive
    have hinactive := RunStatus.isActive_eq_false_of_isTerminal h
    simp only [completedRun] at hactive
    rw [hinactive] at hactive
    cases hactive
  · intro _
    constructor
    · intro hd
      cases hd
    · intro hq
      simp only [completedRun] at hq
      rw [hq] at h
      cases h

structure MovesOn (f : Run → Run) (r : Run) : Prop extends KeepsClaim f r where
  left : (f r).status ≠ .queued

theorem completedRun_movesOn {status : RunStatus} (h : status.isTerminal = true)
    (error : Option Json) (now : Int) (r : Run) :
    MovesOn (completedRun status error now) r := by
  refine ⟨completedRun_keepsClaim h error now r, ?_⟩
  intro hq
  simp only [completedRun] at hq
  rw [hq] at h
  cases h

/-- What `complete` does after its edit of the run. -/
def settle (env : Environment) (runId : String) (status : RunStatus) (now : Int) (writes : Bool)
    (run : Run) : StoreAction Run := do
  let _ ← findAutomation run.automationId
  editAutomation run.automationId fun r =>
    { r with
      lastRunAt := .kept (iso now)
      lastStatus := .kept status
      updatedAt := iso now }
  edit (pruneRuns env [runId])
  save env writes
  pure run

theorem complete_of_active (env : Environment) {s : Store} {runId : String} {run : Run}
    {status : RunStatus} (hterminal : status.isTerminal = true)
    (hid : isIdentifier runId = true) (hrun : s.state.runs.get? runId = some run)
    (hactive : run.status.isActive = true) (error : Option Json) (now : Int) (writes : Bool) :
    complete env runId status error now writes s =
      (do
        editRun runId (completedRun status error now)
        settle env runId status now writes (completedRun status error now run)) s := by
  unfold complete
  rw [hterminal, bind_run_of_ok (require_true_run _ s),
    bind_run_of_ok (findRun_of_some hid hrun), hactive, bind_run_of_ok (require_true_run _ s)]
  rfl

theorem pruneCreateRequests_automations (env : Environment) (s : State) :
    (pruneCreateRequests env s).1.automations = s.automations := by
  unfold pruneCreateRequests
  simp only
  split
  · rfl
  · rfl

theorem pruneCreateRequests_runs (env : Environment) (s : State) :
    (pruneCreateRequests env s).1.runs = s.runs := by
  unfold pruneCreateRequests
  simp only
  split
  · rfl
  · rfl

/-- Every edit of a definition and both halves of a save keep `P`. -/
structure Aside (P : Store → Prop) : Prop where
  define : ∀ (record : Automation) (requests : State → Dict String CreateRequest),
    Keeps P (edit fun s => { s with
      automations := s.automations.set record.automationId record
      createRequests := requests s })
  touch : ∀ k f, (∀ a : Automation, (f a).automationId = a.automationId) →
    Keeps P (editAutomation k f)
  requests : ∀ env, Keeps P (edit fun s => (pruneCreateRequests env s).1)
  persist : ∀ s, P s → P { s with saved := some s.state }

section

variable {P : Store → Prop}

theorem Aside.of_runs {I : Dict String Run → Prop} : Aside fun s => I s.state.runs := by
  refine ⟨fun record requests => Keeps.modify fun s hs => hs,
    fun k f _ => Keeps.modify fun s hs => hs, fun env => ?_, fun s hs => hs⟩
  apply Keeps.modify
  intro s hs
  rw [pruneCreateRequests_runs]
  exact hs

section

variable (h : Aside P)

include h

theorem Aside.save (env : Environment) (writes : Bool) :
    Keeps P (save env writes) := by
  apply Keeps.bind (h.requests env)
  intro _
  apply Keeps.bind Keeps.require
  intro _
  exact Keeps.modify h.persist

theorem Aside.createRecord (env : Environment) (payload : List (String × Json))
    (request : Option (String × String)) (automationId : String) (now : Int) (writes : Bool) :
    Keeps P (createRecord env payload request automationId now writes) := by
  apply Keeps.bind Keeps.lift
  intro record
  apply Keeps.bind (h.define record _)
  intro _
  exact Keeps.bind (h.save env writes) fun _ => Keeps.pure

theorem Aside.create (env : Environment) (payload : List (String × Json))
    (uuid : String) (now : Int) (writes : Bool) : Keeps P (create env payload uuid now writes) := by
  apply Keeps.bind Keeps.lift
  intro requestId
  cases requestId with
  | none => exact h.createRecord env payload none _ now writes
  | some id =>
    apply Keeps.bind Keeps.read
    intro prior
    cases prior with
    | none => exact h.createRecord env payload _ _ now writes
    | some prior =>
      apply Keeps.bind Keeps.require
      intro _
      apply Keeps.bind Keeps.read
      intro existing
      cases existing with
      | none => exact Keeps.raise
      | some record => exact Keeps.pure

theorem Aside.update (env : Environment) (automationId : String)
    (changes : List (String × Json)) (expectedRevision now : Int) (writes : Bool) :
    Keeps P (update env automationId changes expectedRevision now writes) := by
  apply Keeps.bind (keeps_findAutomation automationId)
  intro record
  apply Keeps.bind Keeps.require
  intro _
  apply Keeps.bind Keeps.require
  intro _
  apply Keeps.bind_lift
  intro normalized hnew
  have hid : (carryOver record changes normalized).automationId = automationId :=
    (newRecord_spec hnew).1
  have hdefine := h.define (carryOver record changes normalized) State.createRequests
  rw [hid] at hdefine
  apply Keeps.bind hdefine
  intro _
  exact Keeps.bind (h.save env writes) fun _ => Keeps.pure

theorem Aside.setEnabled (env : Environment) (automationId : String)
    (enabled : Bool) (expectedRevision now : Int) (writes : Bool) :
    Keeps P (setEnabled env automationId enabled expectedRevision now writes) := by
  apply Keeps.bind (keeps_findAutomation automationId)
  intro record
  apply Keeps.bind Keeps.require
  intro _
  split
  · exact Keeps.pure
  apply Keeps.bind
  · exact h.touch _ _ fun _ => rfl
  intro _
  apply Keeps.bind Keeps.lift
  intro next
  apply Keeps.bind
  · exact h.touch _ _ fun _ => rfl
  intro _
  exact Keeps.bind (h.save env writes) fun _ => keeps_findAutomation automationId

theorem Aside.offerAutomation (env : Environment) (now : Int)
    (automationId : String) : Keeps P (offerAutomation env now automationId) := by
  apply Keeps.bind Keeps.read
  intro found
  cases found with
  | none => exact Keeps.pure
  | some record =>
    simp only
    split
    · exact Keeps.pure
    apply Keeps.bind Keeps.lift
    intro next
    split
    · apply Keeps.bind
      · exact h.touch _ _ fun _ => rfl
      intro _
      exact Keeps.pure
    · exact Keeps.pure

theorem Aside.offerAutomations (env : Environment) (now : Int)
    (ids : List String) : Keeps P (offerAutomations env now ids) := by
  induction ids with
  | nil => exact Keeps.pure
  | cons id rest ih =>
    apply Keeps.bind (h.offerAutomation env now id)
    intro here
    exact Keeps.bind ih fun _ => Keeps.pure

theorem Aside.schedulerSnapshot (env : Environment) (now : Int) (writes : Bool) :
    Keeps P (schedulerSnapshot env now writes) := by
  apply Keeps.bind Keeps.read
  intro ids
  apply Keeps.bind (h.offerAutomations env now ids)
  intro result
  simp only
  split
  · exact Keeps.bind (h.save env writes) fun _ => Keeps.pure
  · exact Keeps.pure

end

def deleted (automationId : String) (now : Int) (s : State) : State :=
  rebuildIdempotency { s with
    automations := s.automations.erase automationId
    createRequests := s.createRequests.mapValues fun _ r =>
      if r.automationId = automationId then { r with deletedAt := some (iso now) } else r
    runs := s.runs.filter fun _ r => r.automationId ≠ automationId }

theorem Aside.delete (h : Aside P) (env : Environment) (automationId : String)
    (expectedRevision now : Int) (writes : Bool)
    (hdrop : ∀ s, P s → hasActiveRun s.state automationId = false →
      P { s with state := deleted automationId now s.state }) :
    Keeps P (delete env automationId expectedRevision now writes) := by
  apply Keeps.bind (keeps_findAutomation automationId)
  intro record
  apply Keeps.bind Keeps.require
  intro _
  apply Keeps.bind Keeps.require
  intro _
  apply Triple.bind
  · exact Triple.read (Q := fun active s => P s ∧ active = hasActiveRun s.state automationId)
      fun s hs => ⟨hs, rfl⟩
  intro active
  apply Triple.bind_require fun _ hs => hs.1
  intro hidle
  apply Triple.bind (Q := fun _ => P)
  · apply Triple.modify
    intro s hs
    exact hdrop s hs.1 (by rw [← hs.2]; simpa using hidle)
  intro _
  exact h.save env writes

end

/-! ## Calls on a run -/

/-- Pruning and every edit of a run that `edited` allows keep `P` as well. -/
structure Outcomes (P : Store → Prop) (edited : String → Prop) : Prop extends Aside P where
  pruneRuns : ∀ env protectedIds, Keeps P (edit (pruneRuns env protectedIds))
  editRun : ∀ (k : String) (f : Run → Run), edited k → ∀ run, MovesOn f run →
    Triple (fun s => P s ∧ s.state.runs.get? k = some run) (editRun k f) (fun _ => P) (fun _ => P)

section

variable {P : Store → Prop} {edited : String → Prop}

section

variable (h : Outcomes P edited)

include h

theorem Outcomes.complete (env : Environment) {runId : String}
    (status : RunStatus) (error : Option Json) (now : Int) (writes : Bool) (hk : edited runId) :
    Keeps P (complete env runId status error now writes) := by
  apply Keeps.bind_require
  intro hterminal
  apply Triple.bind (findRun_spec runId)
  intro run
  apply Triple.bind_require fun _ hs => hs.1
  intro _
  apply Triple.bind (h.editRun runId _ hk run (completedRun_movesOn hterminal error now run))
  intro _
  apply Keeps.bind (keeps_findAutomation run.automationId)
  intro _
  apply Keeps.bind
  · exact h.touch _ _ fun _ => rfl
  intro _
  apply Keeps.bind (h.pruneRuns env _)
  intro _
  exact Keeps.bind (h.save env writes) fun _ => Keeps.pure

/-- The call finds its run through the link. -/
theorem Outcomes.completeByBridgeRun (env : Environment)
    {bridgeRunId : String} (status : RunStatus) (error : Option Json) (now : Int) (writes : Bool)
    (hk : ∀ s, P s → ∀ run ∈ s.state.runs.values, run.bridgeRunId = some bridgeRunId →
      edited run.automationRunId) :
    Keeps P (completeByBridgeRun env bridgeRunId status error now writes) := by
  apply Keeps.bind_lift
  intro id hid
  rw [identifier_eq_ok hid]
  apply Triple.bind
  · exact Triple.read (Q := fun runs s => P s ∧ runs = s.state.runs.values) fun s hs => ⟨hs, rfl⟩
  intro runs
  split
  · rename_i run hlinked
    intro s hs
    have hmem : run ∈ runs.filter fun r => r.bridgeRunId = some bridgeRunId := by
      rw [hlinked]
      exact List.mem_singleton.mpr rfl
    rw [hs.2] at hmem
    have hrun := hk s hs.1 run (List.mem_of_mem_filter hmem)
      (of_decide_eq_true (List.mem_filter.mp hmem).2)
    exact h.complete env status error now writes hrun s hs.1
  · exact Triple.raise fun _ hs => hs.1

theorem Outcomes.settle (env : Environment) (runId : String)
    (status : RunStatus) (now : Int) (writes : Bool) (run : Run) :
    Keeps P (settle env runId status now writes run) := by
  apply Keeps.bind (keeps_findAutomation run.automationId)
  intro _
  apply Keeps.bind
  · exact h.touch _ _ fun _ => rfl
  intro _
  apply Keeps.bind (h.pruneRuns env _)
  intro _
  exact Keeps.bind (h.save env writes) fun _ => Keeps.pure

theorem Outcomes.completeLinked (env : Environment) {runId : String}
    {run : Run} {status : RunStatus} (hterminal : status.isTerminal = true)
    (hactive : run.status.isActive = true) (bridgeRunId : String) (error : Option Json)
    (now : Int) (writes : Bool) (hk : edited runId) :
    Triple (fun s => (P s ∧ s.state.runs.get? runId = some run) ∧ isIdentifier runId = true)
      (do
        Automations.editRun runId fun r => { r with bridgeRunId := some bridgeRunId }
        Automations.complete env runId status error now writes)
      (fun _ => P) fun _ => P := by
  intro s hs
  obtain ⟨⟨hp, hrun⟩, hid⟩ := hs
  let link : Run → Run := fun r => { r with bridgeRunId := some bridgeRunId }
  have hlinked : (s.state.runs.update runId link).get? runId = some (link run) := by
    rw [Dict.get?_update, if_pos rfl, hrun]
    rfl
  have hmoves : MovesOn (fun r => completedRun status error now (link r)) run := by
    have hcompleted := completedRun_movesOn hterminal error now (link run)
    exact ⟨⟨rfl, rfl, rfl, hcompleted.active, hcompleted.dispatchable⟩, hcompleted.left⟩
  have hedits : (s.state.runs.update runId link).update runId (completedRun status error now) =
      s.state.runs.update runId fun r => completedRun status error now (link r) :=
    Dict.update_update _ _ _ _
  have hrest := Triple.bind (h.editRun runId _ hk run hmoves) fun _ =>
    h.settle env runId status now writes (completedRun status error now (link run))
  have hsame := complete_of_active env hterminal hid
    (s := { s with state := { s.state with runs := s.state.runs.update runId link } }) hlinked
    hactive error now writes
  have hone := hrest s ⟨hp, hrun⟩
  unfold Automations.editRun edit at hsame hone ⊢
  rw [bind_modify_run] at hsame hone ⊢
  rw [hsame]
  simp only [hedits]
  exact hone

theorem Outcomes.completeRuntimeRun (env : Environment)
    (bridgeRunId : String) {clientRequestId : String} (unattended : Bool) (status : RunStatus)
    (error : Option Json) (now : Int) (writes : Bool)
    (hk : ∀ runId, automationRunIdOf clientRequestId = some runId → edited runId) :
    Keeps P (completeRuntimeRun env bridgeRunId clientRequestId unattended status error now
      writes) := by
  apply Keeps.bind_require
  intro hterminal
  cases hid : automationRunIdOf clientRequestId with
  | none => exact Keeps.raise
  | some runId =>
    apply Keeps.bind Keeps.require
    intro _
    apply Keeps.bind Keeps.lift
    intro id
    apply Triple.bind
    · exact Triple.attempt (findRun_identified runId) fun _ => Triple.raise fun _ hs => hs
    intro run
    apply Triple.bind_require fun _ hs => hs.1.1
    intro _
    split
    · rename_i hactive
      exact h.completeLinked env hterminal hactive id error now writes (hk runId hid)
    · apply Triple.bind_require fun _ hs => hs.1.1
      intro _
      exact Triple.pure fun _ hs => hs.1.1

theorem Outcomes.markRunning (env : Environment) {runId : String}
    (bridgeRunId threadId : Option String) (now : Int) (writes : Bool) (hk : edited runId) :
    Keeps P (markRunning env runId bridgeRunId threadId now writes) := by
  apply Triple.bind (findRun_spec runId)
  intro run
  apply Triple.bind_lift fun _ _ hs => hs.1
  intro bridgeId _
  apply Triple.bind_lift fun _ _ hs => hs.1
  intro thread _
  split
  · rename_i hqueued
    apply Triple.bind
    · refine h.editRun runId _ hk run ⟨⟨rfl, rfl, rfl, ?_, ?_⟩, ?_⟩
      · intro _
        rw [hqueued]
        rfl
      · intro _
        simp
      · simp
    · intro _
      exact Keeps.bind (h.save env writes) fun _ => keeps_findRun runId
  · rename_i hqueued
    apply Triple.bind_require fun _ hs => hs.1
    intro _
    split
    · apply Triple.bind
      · exact h.editRun runId _ hk run ⟨⟨rfl, rfl, rfl, fun ha => ha, fun hd => hd⟩, hqueued⟩
      intro _
      apply Keeps.bind (h.pruneRuns env _)
      intro _
      exact Keeps.bind (h.save env writes) fun _ => keeps_findRun runId
    · exact Triple.pure fun _ hs => hs.1

end

/-- What is known when a claim stores its run, apart from what the caller knows. -/
structure Claimable (env : Environment) (automationId : String) (request : ClaimRequest)
    (record : Automation) (status : RunStatus) (now : Int) (s : State) : Prop where
  found : s.automations.get? automationId = some record
  identified : isIdentifier automationId = true
  status : status = claimStatus env s automationId record request.source request.dueAt
    request.capacityAvailable now
  key : s.idempotency.get? request.idempotencyKey = none

/-- From `P₀` a claim under a new key leads to `P` when it stores its run. -/
structure StoresClaim (P₀ P : Store → Prop) (env : Environment) (automationId uuid : String)
    (now : Int) : Prop where
  before : ∀ s, P₀ s → P s
  stores : ∀ request record status s, P₀ s →
    Claimable env automationId request record status now s.state →
    P { s with
      state := recordClaim automationId
        (claimedRun ("autrun_" ++ uuid) automationId record request status now) s.state }

section

variable {P₀ : Store → Prop} {env : Environment} {automationId uuid : String} {now : Int}

section

variable (h : Outcomes P edited) (hc : StoresClaim P₀ P env automationId uuid now)

include h hc

theorem Outcomes.claimNew (request : ClaimRequest) (expectedRevision : Int) (writes : Bool) :
    Triple (fun s => P₀ s ∧ s.state.idempotency.get? request.idempotencyKey = none)
      (claimNew env automationId request expectedRevision uuid now writes)
      (fun _ => P) (fun _ => P) := by
  apply Triple.bind
  · exact (findAutomation_identified automationId).weaken (fun _ hs => hs) (fun _ _ hs => hs)
      fun _ s hs => hc.before s hs.1
  intro record
  apply Triple.bind_require fun s hs => hc.before s hs.1.1.1
  intro _
  apply Triple.bind
  · exact Triple.read (Q := fun status s => P₀ s ∧
      Claimable env automationId request record status now s.state)
      fun s hs => ⟨hs.1.1.1, hs.1.2, hs.2, rfl, hs.1.1.2⟩
  intro status
  apply Triple.bind (Q := fun _ => P)
  · apply Triple.modify
    intro s hs
    exact hc.stores request record status s hs.1 hs.2
  intro _
  have hrest : Keeps P (do
      editAutomation automationId fun r => { r with updatedAt := iso now }
      edit (Automations.pruneRuns env ["autrun_" ++ uuid])
      Automations.save env writes
      pure (claimedRun ("autrun_" ++ uuid) automationId record request status now)) := by
    apply Keeps.bind
    · exact h.touch _ _ fun _ => rfl
    intro _
    apply Keeps.bind (h.pruneRuns env _)
    intro _
    exact Keeps.bind (h.save env writes) fun _ => Keeps.pure
  cases request.source with
  | manual => exact hrest
  | scheduled =>
    apply Keeps.bind Keeps.lift
    intro next
    apply Keeps.bind
    · exact h.touch _ _ fun _ => rfl
    intro _
    exact hrest

theorem Outcomes.claimKeyed (request : ClaimRequest) (expectedRevision : Int) (writes : Bool) :
    Triple P₀ (claimKeyed env automationId request expectedRevision uuid now writes)
      (fun _ => P) (fun _ => P) := by
  apply Triple.bind_lift fun _ s hs => hc.before s hs
  intro key hkey
  rw [identifier_eq_ok hkey]
  apply Triple.bind
  · exact Triple.read (Q := fun found s => P₀ s ∧
      s.state.idempotency.get? request.idempotencyKey = found) fun s hs => ⟨hs, rfl⟩
  intro found
  cases found with
  | some existingId =>
    exact (findRun_spec existingId).weaken (fun s hs => hc.before s hs.1)
      (fun _ _ hs => hs.1) fun _ _ hs => hs
  | none => exact h.claimNew hc request expectedRevision writes

theorem Outcomes.claim (dueAt idempotencyKey : String) (expectedRevision : Int)
    (capacityAvailable : Bool) (webSearch : Json) (writes : Bool) :
    Triple P₀ (claim env automationId dueAt idempotencyKey expectedRevision capacityAvailable
      webSearch uuid now writes) (fun _ => P) (fun _ => P) := by
  apply Triple.bind_lift fun _ s hs => hc.before s hs
  intro due _
  apply Triple.bind_lift fun _ s hs => hc.before s hs
  intro search _
  exact h.claimKeyed hc _ expectedRevision writes

theorem Outcomes.runNow (capacityAvailable : Bool) (webSearch : Json) (keyUuid : String)
    (writes : Bool) :
    Triple P₀ (runNow env automationId capacityAvailable webSearch keyUuid uuid now writes)
      (fun _ => P) (fun _ => P) := by
  apply Triple.bind
  · exact (findAutomation_spec automationId).weaken (fun _ hs => hs) (fun _ _ hs => hs.1)
      fun _ s hs => hc.before s hs
  intro record
  apply Triple.bind_lift fun _ s hs => hc.before s hs
  intro search _
  exact h.claimKeyed hc _ record.revision writes

end

end

/-- The next process loads the file and settles the runs it finds. -/
theorem Outcomes.restart (h : Outcomes P edited) (env : Environment) (now : Int) (writes : Bool)
    (hload : ∀ s, P s → P { s with state := s.saved.getD State.empty })
    (hrecover : ∀ (s : Store) acc runId, P { s with state := acc.1 } →
      P { s with state := (recoverRun now acc runId).1 }) :
    Keeps P (restart env now writes) := by
  have hfold : ∀ (s : Store) (ids : List String) (acc : State × List String),
      P { s with state := acc.1 } → P { s with state := (ids.foldl (recoverRun now) acc).1 } := by
    intro s ids
    induction ids with
    | nil =>
      intro acc hacc
      exact hacc
    | cons id rest ih =>
      intro acc hacc
      exact ih _ (hrecover s acc id hacc)
  apply Keeps.bind (Keeps.modify hload)
  intro _
  apply Triple.bind
  · exact Triple.read (Q := fun settled s => P s ∧ P { s with state := settled.1 })
      fun s hs => ⟨hs, hfold s _ (s.state, []) hs⟩
  intro settled
  apply Triple.bind (Q := fun _ => P)
  · exact Triple.modify fun s hs => hs.2
  intro _
  apply Keeps.bind Keeps.read
  intro pruned
  apply Keeps.bind (h.requests env)
  intro _
  split
  · split
    · exact h.save env writes
    · exact Keeps.pure
  · apply Keeps.bind (h.pruneRuns env _)
    intro _
    exact h.save env writes

/-- What `P` has to know of a call beyond the edits. -/
def Allows (P : Store → Prop) (edited : String → Prop) (env : Environment) (s : Store) : Call → Prop
  | .delete automationId _ now _ => ∀ s, P s → hasActiveRun s.state automationId = false →
      P { s with state := deleted automationId now s.state }
  | .claim automationId _ _ _ _ _ uuid now _ =>
    ∃ P₀, P₀ s ∧ StoresClaim P₀ P env automationId uuid now
  | .runNow automationId _ _ _ uuid now _ =>
    ∃ P₀, P₀ s ∧ StoresClaim P₀ P env automationId uuid now
  | .markRunning runId _ _ _ _ => edited runId
  | .complete runId _ _ _ _ => edited runId
  | .completeByBridgeRun bridgeRunId _ _ _ _ => ∀ s, P s → ∀ run ∈ s.state.runs.values,
      run.bridgeRunId = some bridgeRunId → edited run.automationRunId
  | .completeRuntimeRun _ clientRequestId _ _ _ _ _ =>
    ∀ runId, automationRunIdOf clientRequestId = some runId → edited runId
  | .restart now _ => (∀ s, P s → P { s with state := s.saved.getD State.empty }) ∧
      ∀ (s : Store) acc runId, P { s with state := acc.1 } →
        P { s with state := (recoverRun now acc runId).1 }
  | _ => True

theorem Outcomes.perform (h : Outcomes P edited) {env : Environment} {s : Store} {call : Call}
    (hcall : Allows P edited env s call) (hs : P s) : P (perform env call s).2 := by
  cases call with
  | create payload uuid now writes => exact (h.create env payload uuid now writes).map.state hs
  | update automationId changes expectedRevision now writes =>
    exact (h.update env automationId changes expectedRevision now writes).map.state hs
  | pause automationId expectedRevision now writes =>
    exact (h.setEnabled env automationId false expectedRevision now writes).map.state hs
  | resume automationId expectedRevision now writes =>
    exact (h.setEnabled env automationId true expectedRevision now writes).map.state hs
  | delete automationId expectedRevision now writes =>
    exact (Keeps.bind (h.delete env automationId expectedRevision now writes hcall)
      fun _ => Keeps.pure).state hs
  | claim automationId dueAt key expectedRevision capacityAvailable webSearch uuid now writes =>
    obtain ⟨P₀, hs₀, hclaim⟩ := hcall
    exact (h.claim hclaim dueAt key expectedRevision capacityAvailable webSearch
      writes).map_value.state hs₀
  | runNow automationId capacityAvailable webSearch keyUuid uuid now writes =>
    obtain ⟨P₀, hs₀, hclaim⟩ := hcall
    exact (h.runNow hclaim capacityAvailable webSearch keyUuid writes).map_value.state hs₀
  | markRunning runId bridgeRunId threadId now writes =>
    exact (h.markRunning env bridgeRunId threadId now writes hcall).map.state hs
  | complete runId status error now writes =>
    exact (h.complete env status error now writes hcall).map.state hs
  | completeByBridgeRun bridgeRunId status error now writes =>
    exact (h.completeByBridgeRun env status error now writes hcall).map.state hs
  | completeRuntimeRun bridgeRunId clientRequestId unattended status error now writes =>
    exact (h.completeRuntimeRun env bridgeRunId unattended status error now writes
      hcall).map.state hs
  | schedulerSnapshot now writes => exact (h.schedulerSnapshot env now writes).map.state hs
  | restart now writes =>
    exact (Keeps.bind (h.restart env now writes hcall.1 hcall.2) fun _ => Keeps.pure).state hs

end

def EachRun (p : Run → Prop) (s : State) : Prop := ∀ k r, s.runs.get? k = some r → p r

/-- `p` holds of the runs in memory and in the file. -/
def StoreEach (p : Run → Prop) (s : Store) : Prop :=
  EachRun p s.state ∧ ∀ f, s.saved = some f → EachRun p f

/-- A claim of the call keeps `P`. -/
def ClaimsInto (P : Store → Prop) (env : Environment) : Call → Prop
  | .claim automationId _ _ _ _ _ uuid now _ => StoresClaim P P env automationId uuid now
  | .runNow automationId _ _ _ uuid now _ => StoresClaim P P env automationId uuid now
  | _ => True

section

variable {p : Run → Prop} {s t : State}

theorem eachRun_empty : EachRun p State.empty := by
  intro k r h
  simp [State.empty] at h

theorem EachRun.same (h : EachRun p s) (hr : t.runs = s.runs) : EachRun p t := by
  intro k r hg
  rw [hr] at hg
  exact h k r hg

theorem EachRun.filter (h : EachRun p s) {q : String → Run → Bool}
    (hr : t.runs = s.runs.filter q) : EachRun p t := by
  intro k r hg
  rw [hr, Dict.get?_filter_eq_some_iff] at hg
  exact h k r hg.1

theorem EachRun.update (h : EachRun p s) {k : String} {f : Run → Run}
    (hf : ∀ r, s.runs.get? k = some r → p (f r)) (hr : t.runs = s.runs.update k f) :
    EachRun p t := by
  intro k' r hg
  rw [hr, Dict.get?_update] at hg
  split at hg
  · rename_i hk
    obtain ⟨old, hold, hnew⟩ := Option.map_eq_some_iff.mp hg
    rw [← hnew]
    exact hf old (by rw [← hk]; exact hold)
  · exact h k' r hg

theorem EachRun.pruneRuns (h : EachRun p s) (env : Environment) (protectedIds : List String) :
    EachRun p (pruneRuns env protectedIds s) := by
  unfold Automations.pruneRuns
  simp only
  split
  · exact h
  · exact h.filter (q := fun k _ => k ∉ prunedRuns env protectedIds s) rfl

theorem reconciledRun_movesOn (now : Int) {r : Run} (h : isPendingRuntimeLink r = true) :
    MovesOn (reconciledRun now) r := by
  refine ⟨⟨rfl, rfl, rfl, fun ha => ha, fun hd => hd⟩, ?_⟩
  intro hq
  simp only [reconciledRun] at hq
  simp [isPendingRuntimeLink, hq, RunStatus.isTerminal] at h

theorem interruptedRun_movesOn (now : Int) (r : Run) : MovesOn (interruptedRun now) r := by
  refine ⟨⟨rfl, rfl, rfl, ?_, ?_⟩, ?_⟩
  · intro hactive
    cases hactive
  · intro _
    simp [interruptedRun]
  · simp [interruptedRun]

def Lasting (p : Run → Prop) : Prop := ∀ f r, MovesOn f r → p r → p (f r)

theorem EachRun.recoverRun (hmoves : Lasting p) {acc : State × List String}
    (h : EachRun p acc.1) (now : Int) (runId : String) :
    EachRun p (recoverRun now acc runId).1 := by
  unfold Automations.recoverRun
  cases hg : acc.1.runs.get? runId with
  | none => exact h
  | some run =>
    simp only
    split
    · rename_i hpending
      refine h.update (k := runId) (f := reconciledRun now) ?_ rfl
      intro r hr
      rw [hg] at hr
      cases hr
      exact hmoves _ run (reconciledRun_movesOn now hpending) (h runId run hg)
    · split
      · refine h.update (k := runId) (f := interruptedRun now) ?_ rfl
        intro r hr
        exact hmoves _ r (interruptedRun_movesOn now r) (h runId r hr)
      · exact h

theorem outcomes_each (hmoves : Lasting p) : Outcomes (StoreEach p) fun _ => True where
  define := fun _ _ => Keeps.modify fun _ hs => hs
  touch := fun _ _ _ => Keeps.modify fun _ hs => hs
  requests := fun env => Keeps.modify fun s hs =>
    ⟨hs.1.same (pruneCreateRequests_runs env s.state), hs.2⟩
  persist := by
    intro s hs
    refine ⟨hs.1, ?_⟩
    intro f hf
    have hstate : s.state = f := Option.some.inj hf
    rw [← hstate]
    exact hs.1
  pruneRuns := fun env protectedIds => Keeps.modify fun _ hs =>
    ⟨hs.1.pruneRuns env protectedIds, hs.2⟩
  editRun := by
    intro k f _ run hf
    apply Triple.modify
    intro s hs
    refine ⟨hs.1.1.update (k := k) (f := f) ?_ rfl, hs.1.2⟩
    intro r hr
    rw [hs.2] at hr
    cases hr
    exact hmoves f run hf (hs.1.1 k run hs.2)

theorem storesClaim_each (env : Environment) {automationId uuid : String} {now : Int}
    (hnew : isIdentifier automationId = true → ∀ request record status,
      p (claimedRun ("autrun_" ++ uuid) automationId record request status now)) :
    StoresClaim (StoreEach p) (StoreEach p) env automationId uuid now := by
  refine ⟨fun _ hs => hs, ?_⟩
  intro request record status s hs hclaim
  refine ⟨?_, hs.2⟩
  intro k r hg
  simp only [recordClaim, Dict.get?_set] at hg
  split at hg
  · cases hg
    exact hnew hclaim.identified request record status
  · exact hs.1 k r hg

/-- What every edit of a run and every claim keeps holds after any call. -/
theorem StoreEach.perform {env : Environment} {s : Store} {call : Call} (hs : StoreEach p s)
    (hmoves : Lasting p) (hclaim : ClaimsInto (StoreEach p) env call) :
    StoreEach p (perform env call s).2 := by
  apply (outcomes_each hmoves).perform ?_ hs
  cases call with
  | delete automationId expectedRevision now writes =>
    intro s hs _
    exact ⟨hs.1.filter (q := fun _ r => r.automationId ≠ automationId) rfl, hs.2⟩
  | claim automationId dueAt key expectedRevision capacityAvailable webSearch uuid now writes =>
    exact ⟨_, hs, hclaim⟩
  | runNow automationId capacityAvailable webSearch keyUuid uuid now writes =>
    exact ⟨_, hs, hclaim⟩
  | restart now writes =>
    refine ⟨?_, fun s acc runId hs => ⟨EachRun.recoverRun hmoves hs.1 now runId, hs.2⟩⟩
    intro s hs
    refine ⟨?_, hs.2⟩
    cases hsaved : s.saved with
    | none => exact eachRun_empty
    | some f => exact hs.2 f hsaved
  | completeByBridgeRun bridgeRunId status error now writes => exact fun _ _ _ _ _ => trivial
  | completeRuntimeRun bridgeRunId clientRequestId unattended status error now writes =>
    exact fun _ _ => trivial
  | _ => trivial

end

end CodexBridge.Automations
