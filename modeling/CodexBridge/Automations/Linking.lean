import CodexBridge.Automations.Dispatch

/-! # The link and the outcome of a run in either order

A fast runtime reports its outcome before the dispatcher has linked the run. The run is then
finished but not started: pruning leaves it alone, and the late link starts it.
-/

namespace CodexBridge.Automations

open Effect Dispatch

/-! ## Runs that wait -/

structure Waiting (run : Run) : Prop where
  automation : isIdentifier run.automationId = true
  unlinked : run.status = .queued → run.bridgeRunId = none
  unstarted : run.status = .queued → run.startedAt = none

theorem lasting_waiting : Lasting Waiting := by
  intro f r hf hr
  refine ⟨?_, fun hq => absurd hq hf.left, fun hq => absurd hq hf.left⟩
  rw [hf.automation_id]
  exact hr.automation

theorem claimsInto_waiting (env : Environment) (call : Call) :
    ClaimsInto (StoreEach Waiting) env call := by
  have hnew : ∀ {automationId uuid : String} {now : Int}, isIdentifier automationId = true →
      ∀ request record status,
        Waiting (claimedRun ("autrun_" ++ uuid) automationId record request status now) :=
    fun hid _ _ _ => ⟨hid, fun _ => rfl, fun _ => rfl⟩
  cases call with
  | claim automationId dueAt key expectedRevision capacityAvailable webSearch uuid now writes =>
    exact storesClaim_each env hnew
  | runNow automationId capacityAvailable webSearch keyUuid uuid now writes =>
    exact storesClaim_each env hnew
  | _ => trivial

theorem reachable_waiting (env : Environment) {calls : List Call} {s : Store}
    (h : Runs.exec (next env) Store.initial calls = some s) : StoreEach Waiting s := by
  have hinit : StoreEach Waiting Store.initial :=
    ⟨eachRun_empty, fun f hf => by cases hf⟩
  refine Runs.invariant (fun s call t hs hn => ?_) hinit h
  unfold next at hn
  split at hn
  · cases hn
    exact hs.perform lasting_waiting (claimsInto_waiting env call)
  · cases hn

/-- The call neither names the run `k`, as every call on another automation, nor deletes its
automation `a`, nor restarts the process. -/
def LeavesRun (k a : String) (s : Store) : Call → Prop
  | .delete automationId _ _ _ => automationId ≠ a
  | .markRunning runId _ _ _ _ => runId ≠ k
  | .complete runId _ _ _ _ => runId ≠ k
  | .completeByBridgeRun bridgeRunId _ _ _ _ => ∀ run ∈ s.state.runs.values,
      run.bridgeRunId = some bridgeRunId → run.automationRunId ≠ k
  | .completeRuntimeRun _ clientRequestId _ _ _ _ _ => automationRunIdOf clientRequestId ≠ some k
  | .restart _ _ => False
  | _ => True

instance (k a : String) (s : Store) (call : Call) : Decidable (LeavesRun k a s call) :=
  match call with
  | .delete .. => inferInstanceAs (Decidable (_ ≠ _))
  | .markRunning .. => inferInstanceAs (Decidable (_ ≠ _))
  | .complete .. => inferInstanceAs (Decidable (_ ≠ _))
  | .completeByBridgeRun .. => inferInstanceAs (Decidable (∀ run ∈ _, _ → _))
  | .completeRuntimeRun .. => inferInstanceAs (Decidable (_ ≠ _))
  | .restart .. => inferInstanceAs (Decidable False)
  | .create .. | .update .. | .pause .. | .resume .. | .claim .. | .runNow ..
  | .schedulerSnapshot .. => inferInstanceAs (Decidable True)

/-- The run `k` is stored and neither pruning nor a claim takes it. -/
def Holds (k : String) (run : Run) (s : Store) : Prop :=
  Named s.state ∧ s.state.runs.get? k = some run

section

variable {k : String} {run : Run}

theorem outcomes_holds (hsettled : isSettled run = false) : Outcomes (Holds k run) (· ≠ k) where
  define := fun _ _ => Keeps.modify fun _ hs => hs
  touch := fun _ _ _ => Keeps.modify fun _ hs => hs
  requests := (Aside.of_runs (I := fun runs => (∀ k r, runs.get? k = some r →
    r.automationRunId = k) ∧ runs.get? k = some run)).requests
  persist := fun _ hs => hs
  pruneRuns := by
    intro env protectedIds
    apply Keeps.modify
    intro s hs
    refine ⟨hs.1.pruneRuns env protectedIds, ?_⟩
    rw [pruneRuns_get?, if_neg ?_]
    · exact hs.2
    intro hm
    obtain ⟨-, r, hr, hpruned, hid⟩ := settled_of_mem_prunedRuns hm
    obtain ⟨k', hg⟩ := (Dict.mem_values_iff _ r).mp hr
    have hk : k' = k := by rw [← hs.1 k' r hg, hid]
    rw [hk, hs.2] at hg
    cases hg
    rw [hsettled] at hpruned
    cases hpruned
  editRun := by
    intro runId f hne r hf
    apply Triple.modify
    intro s hs
    refine ⟨hs.1.1.update ?_, ?_⟩
    · intro r' hr'
      rw [hs.2] at hr'
      cases hr'
      exact hf.run_id
    · rw [Dict.get?_update, if_neg (Ne.symm hne)]
      exact hs.1.2

/-- Between the two calls the run stays as the first one left it. -/
theorem next_holds {env : Environment} {s t : Store} {call : Call}
    (hsettled : isSettled run = false) (hs : Holds k run s)
    (hcall : LeavesRun k run.automationId s call) (h : next env s call = some t) :
    Holds k run t := by
  unfold next at h
  rcases Runs.taken h with ⟨hdraws, rfl⟩
  have hid : run.automationRunId = k := hs.1 k run hs.2
  have hdrawn : ∀ uuid, s.state.runs.contains ("autrun_" ++ uuid) = false →
      k ≠ "autrun_" ++ uuid := by
    intro uuid hfresh hk
    have hnone : s.state.runs.get? ("autrun_" ++ uuid) = none := by
      simpa [Dict.contains] using hfresh
    rw [← hk, hs.2] at hnone
    cases hnone
  have hclaim : ∀ {automationId uuid : String} {now : Int}, k ≠ "autrun_" ++ uuid →
      StoresClaim (Holds k run) (Holds k run) env automationId uuid now := by
    intro automationId uuid now hk
    refine ⟨fun _ hs => hs, ?_⟩
    intro request record status s hs _
    refine ⟨hs.1.recordClaim automationId _, ?_⟩
    simp only [recordClaim, Dict.get?_set, claimedRun, if_neg hk]
    exact hs.2
  apply (outcomes_holds hsettled).perform ?_ hs
  cases call with
  | delete automationId expectedRevision now writes =>
    intro s hs _
    refine ⟨?_, ?_⟩
    · intro k' r hg
      simp only [deleted, rebuildIdempotency, Dict.get?_filter_eq_some_iff] at hg
      exact hs.1 k' r hg.1
    · simp only [deleted, rebuildIdempotency, Dict.get?_filter_eq_some_iff]
      exact ⟨hs.2, decide_eq_true (Ne.symm hcall)⟩
  | claim automationId dueAt key expectedRevision capacityAvailable webSearch uuid now writes =>
    exact ⟨_, hs, hclaim (hdrawn uuid (by simpa [drawsFresh] using hdraws))⟩
  | runNow automationId capacityAvailable webSearch keyUuid uuid now writes =>
    exact ⟨_, hs, hclaim (hdrawn uuid (by simpa [drawsFresh] using hdraws))⟩
  | markRunning runId bridgeRunId threadId now writes => exact hcall
  | complete runId status error now writes => exact hcall
  | completeByBridgeRun bridgeRunId status error now writes =>
    intro s' hs' r hr hlink hk
    obtain ⟨k', hg⟩ := (Dict.mem_values_iff _ r).mp hr
    rw [hs'.1 k' r hg] at hk
    rw [hk, hs'.2] at hg
    cases hg
    exact hcall run (Dict.mem_values_of_get? hs.2) hlink hid
  | completeRuntimeRun bridgeRunId clientRequestId unattended status error now writes =>
    intro runId hrequest hk
    exact hcall (by rw [hrequest, hk])
  | restart now writes => exact hcall.elim
  | _ => trivial

/-- Whatever lies between the two calls, the run and the agreement of the store stay. -/
theorem exec_holds {env : Environment} {s t : Store} {between : List Call}
    (hsettled : isSettled run = false) (hconsistent : s.Consistent)
    (hs : s.state.runs.get? k = some run)
    (hbetween : Runs.Meets (next env) (LeavesRun k run.automationId) s between)
    (h : Runs.exec (next env) s between = some t) :
    t.state.runs.get? k = some run ∧ t.Consistent := by
  have hinv := Runs.invariant_of_meets (I := fun s => Holds k run s ∧ s.Consistent)
    (fun s call t hs hcall hn =>
      ⟨next_holds hsettled hs.1 hcall hn, next_consistent hs.2 hn⟩)
    ⟨⟨hconsistent.1.named, hs⟩, hconsistent⟩ hbetween h
  exact ⟨hinv.1.2, hinv.2⟩

theorem findAutomation_succeeds {I : Store → Prop} {automationId : String}
    (hid : isIdentifier automationId = true) :
    Triple (fun s => I s ∧ ∃ a, s.state.automations.get? automationId = some a)
      (findAutomation automationId) (fun _ => I) fun _ _ => False := by
  apply Triple.bind_lift_of (identifier_of_isIdentifier hid _)
  apply Triple.bind (Q := fun found s => I s ∧ found.isSome = true)
  · apply Triple.read
    intro s hs
    obtain ⟨a, ha⟩ := hs.2
    exact ⟨hs.1, by rw [ha]; rfl⟩
  intro found
  cases found with
  | none =>
    intro s hs
    cases hs.2
  | some a => exact Triple.pure fun _ hs => hs.1

/-- A run under `k` whose automation exists. -/
def Ready (k : String) (run : Run) (s : Store) : Prop :=
  HoldsRun k (some run) s ∧ ∃ a, s.state.automations.get? run.automationId = some a

theorem settle_succeeds (env : Environment) (hid : isIdentifier run.automationId = true)
    (status : RunStatus) (now : Int) :
    Triple (Ready k run) (settle env k status now true run)
      (fun r s => r = run ∧ HoldsRun k (some run) s) fun _ _ => False := by
  apply Triple.bind (findAutomation_succeeds hid)
  intro _
  apply Triple.bind (Q := fun _ => HoldsRun k (some run))
  · exact Triple.modify fun s hs => hs
  intro _
  apply Triple.bind (Q := fun _ => HoldsRun k (some run))
  · apply Triple.modify
    intro s hs
    unfold HoldsRun
    rw [pruneRuns_get?, if_neg fun hm =>
      (settled_of_mem_prunedRuns hm).1 (List.mem_singleton.mpr rfl)]
    exact hs
  intro _
  apply Triple.bind (save_holdsRun env)
  intro _
  exact Triple.pure fun _ hs => ⟨rfl, hs⟩

theorem complete_succeeds (env : Environment) {status : RunStatus}
    (hterminal : status.isTerminal = true) (hk : isIdentifier k = true)
    (hactive : run.status.isActive = true) (hid : isIdentifier run.automationId = true)
    (error : Option Json) (now : Int) :
    Triple (Ready k run) (complete env k status error now true)
      (fun r s => r = completedRun status error now run ∧ HoldsRun k (some r) s)
      fun _ _ => False := by
  have hactions : Triple (Ready k run) (do
      editRun k (completedRun status error now)
      settle env k status now true (completedRun status error now run))
      (fun r s => r = completedRun status error now run ∧ HoldsRun k (some r) s)
      fun _ _ => False := by
    apply Triple.bind (Q := fun _ => Ready k (completedRun status error now run))
    · apply Triple.modify
      intro s hs
      refine ⟨?_, hs.2⟩
      unfold HoldsRun
      rw [Dict.get?_update, if_pos rfl, hs.1]
      rfl
    · intro _
      have hid' : isIdentifier (completedRun status error now run).automationId = true := hid
      refine (settle_succeeds env hid' status now).returns ?_
      intro r s hs
      rw [hs.1]
      exact ⟨rfl, hs.2⟩
  intro s hs
  rw [complete_of_active env hterminal hk hs.1 hactive]
  exact hactions s hs

theorem completeRuntimeRun_succeeds (env : Environment) {status : RunStatus} {b : String}
    (hterminal : status.isTerminal = true) (hk : isIdentifier k = true)
    (hb : isIdentifier b = true) (hactive : run.status.isActive = true)
    (hlink : run.bridgeRunId = none ∨ run.bridgeRunId = some b)
    (hid : isIdentifier run.automationId = true) (error : Option Json) (now : Int) :
    Triple (Ready k run)
      (completeRuntimeRun env b (dispatchRequestId k) true status error now true)
      (fun r s => r = completedRun status error now { run with bridgeRunId := some b } ∧
        HoldsRun k (some r) s) fun _ _ => False := by
  unfold completeRuntimeRun
  rw [automationRunIdOf_dispatchRequestId]
  apply Triple.bind_require_of hterminal
  apply Triple.bind_require_of rfl
  apply Triple.bind_lift_of (identifier_of_isIdentifier hb _)
  apply Triple.bind (Q := fun r s => r = run ∧ Ready k run s)
  · apply Triple.attempt (F := fun _ _ => False)
    · intro s hs
      rw [findRun_of_some hk hs.1]
      refine ⟨?_, ?_⟩
      · intro r t ht
        cases ht
        exact ⟨rfl, hs⟩
      · intro e t ht
        cases ht
    · intro e s hs
      exact hs.elim
  intro r
  apply Triple.of_pure
  intro hr
  subst hr
  apply Triple.bind_require_of (decide_eq_true hlink)
  rw [if_pos hactive]
  apply Triple.bind (Q := fun _ => Ready k { r with bridgeRunId := some b })
  · apply Triple.modify
    intro s hs
    refine ⟨?_, hs.2⟩
    unfold HoldsRun
    rw [Dict.get?_update, if_pos rfl, hs.1]
    rfl
  · intro _
    have hactive' : ({ r with bridgeRunId := some b } : Run).status.isActive = true := hactive
    exact complete_succeeds env hterminal hk hactive' hid error now

theorem markRunning_late (env : Environment) {b t : String} (hk : isIdentifier k = true)
    (hb : isIdentifier b = true) (ht : isIdentifier t = true)
    (hterminal : run.status.isTerminal = true) (hlink : run.bridgeRunId = some b)
    (hstart : run.startedAt = none) (now : Int) :
    Triple (HoldsRun k (some run)) (markRunning env k (some b) (some t) now true)
      (fun r s => r = { run with startedAt := some (iso now), threadId := some t } ∧
        HoldsRun k (some r) s) fun _ _ => False := by
  have hqueued : run.status ≠ .queued := by
    intro hq
    rw [hq] at hterminal
    cases hterminal
  have hpending : isPendingRuntimeLink run = true := by
    simp [isPendingRuntimeLink, hterminal, hlink, hstart]
  apply Triple.bind (findRun_holdsRun hk)
  intro r
  apply Triple.of_pure
  intro hr
  subst hr
  apply Triple.bind_lift_of (optionalIdentifier_some hb _)
  apply Triple.bind_lift_of (optionalIdentifier_some ht _)
  rw [if_neg hqueued]
  apply Triple.bind_require_of (decide_eq_true ⟨hterminal, rfl, hlink⟩)
  rw [if_pos hpending]
  apply Triple.bind editRun_holdsRun
  intro _
  apply Triple.bind (Q := fun _ => HoldsRun k
    (some { r with startedAt := some (iso now), threadId := some t }))
  · apply Triple.modify
    intro s hs
    unfold HoldsRun
    rw [pruneRuns_get?, if_neg fun hm =>
      (settled_of_mem_prunedRuns hm).1 (List.mem_singleton.mpr rfl)]
    exact hs
  intro _
  apply Triple.bind (save_holdsRun env)
  intro _
  refine (findRun_holdsRun hk).returns ?_
  intro linked s hs
  rw [hs.1]
  exact ⟨rfl, hs.2⟩

end

/-- What the two calls make of the run. -/
structure Linked (status : RunStatus) (b t : String) (run : Run) : Prop where
  status : run.status = status
  bridge : run.bridgeRunId = some b
  thread : run.threadId = some t
  started : run.startedAt.isSome = true
  dispatchable : run.dispatchable = false

/-- A call that cannot raise replies with the run its specification speaks about. -/
theorem replies {c : StoreAction Run} {P : Store → Prop} {Q : Run → Store → Prop} {s : Store}
    (h : Triple P c Q fun _ _ => False) (hs : P s) :
    ∃ run, ((Reply.run <$> c) s).1 = .ok (.run run) ∧ Q run ((Reply.run <$> c) s).2 := by
  have hspec := h s hs
  cases hc : c s with
  | mk r t =>
    cases r with
    | ok run =>
      have hmap : (Reply.run <$> c) s = (.ok (.run run), t) := bind_run_of_ok hc _
      rw [hmap]
      exact ⟨run, rfl, hspec.1 run t hc⟩
    | error e => exact (hspec.2 e t hc).elim

/-- A queued run is linked and completed by the two calls in either order, whatever other calls
lie between them, and what the first call leaves is still stored when the second comes. -/
theorem link_report_commute (env : Environment) {calls : List Call} {s : Store}
    (hreach : Runs.exec (next env) Store.initial calls = some s) {k : String} {run : Run}
    (hrun : s.state.runs.get? k = some run) (hqueued : run.status = .queued)
    (hk : isIdentifier k = true) {b t : String} (hb : isIdentifier b = true)
    (ht : isIdentifier t = true) {status : RunStatus} (hterminal : status.isTerminal = true)
    (error : Option Json) (linkedAt reportedAt : Int) :
    let link := Call.markRunning k (some b) (some t) linkedAt true
    let report := Call.completeRuntimeRun b (dispatchRequestId k) true status error reportedAt true
    ∀ first second, (first = link ∧ second = report) ∨ (first = report ∧ second = link) →
      ∃ record, (perform env first s).1 = .ok (.run record) ∧
        ∀ between mid,
          Runs.Meets (next env) (LeavesRun k run.automationId) (perform env first s).2 between →
          Runs.exec (next env) (perform env first s).2 between = some mid →
            mid.state.runs.get? k = some record ∧
              ∃ final, (perform env second mid).1 = .ok (.run final) ∧
                (perform env second mid).2.state.runs.get? k = some final ∧
                Linked status b t final := by
  intro link report first second horder
  have hconsistent : s.Consistent :=
    Runs.invariant (fun _ _ _ hs hn => next_consistent hs hn)
      ⟨consistent_empty, fun f hf => by cases hf⟩ hreach
  have hwaiting := (reachable_waiting env hreach).1 k run hrun
  have hactive : run.status.isActive = true := by
    rw [hqueued]
    rfl
  -- the second call finds the run as the first one left it
  have hlater : ∀ {record : Run} {u mid : Store} {between : List Call},
      record.automationId = run.automationId → isSettled record = false → u.Consistent →
      HoldsRun k (some record) u →
      Runs.Meets (next env) (LeavesRun k run.automationId) u between →
      Runs.exec (next env) u between = some mid → Ready k record mid := by
    intro record u mid between hsame hsettled hu hheld hmeets hexec
    rw [← hsame] at hmeets
    obtain ⟨hrecord, hmid⟩ := exec_holds hsettled hu hheld hmeets hexec
    exact ⟨hrecord, hmid.1.run_automation k record hrecord⟩
  rcases horder with ⟨rfl, rfl⟩ | ⟨rfl, rfl⟩
  · have hcalled : Store.Consistent (perform env link s).2 :=
      outcomes_consistent.perform trivial hconsistent
    obtain ⟨record, hok, hrecord, hheld⟩ :=
      replies (markRunning_queued env hk hb ht hqueued linkedAt) hrun
    refine ⟨record, hok, ?_⟩
    intro between mid hmeets hexec
    have hstarted : record.status.isActive = true ∧ record.bridgeRunId = some b ∧
        record.automationId = run.automationId := by
      rw [hrecord]
      exact ⟨rfl, rfl, rfl⟩
    have hready := hlater hstarted.2.2 (by simp [isSettled, hstarted.1]) hcalled hheld hmeets hexec
    have hid : isIdentifier record.automationId = true := by
      rw [hstarted.2.2]
      exact hwaiting.automation
    obtain ⟨final, hdone, hfinal, hstored⟩ :=
      replies (completeRuntimeRun_succeeds env hterminal hk hb hstarted.1 (Or.inr hstarted.2.1)
        hid error reportedAt) hready
    refine ⟨hready.1, final, hdone, hstored, ?_⟩
    rw [hfinal, hrecord]
    exact ⟨rfl, rfl, rfl, rfl, rfl⟩
  · have hcalled : Store.Consistent (perform env report s).2 :=
      outcomes_consistent.perform (fun _ _ => trivial) hconsistent
    obtain ⟨record, hok, hrecord, hheld⟩ :=
      replies (completeRuntimeRun_succeeds env hterminal hk hb hactive
        (Or.inl (hwaiting.unlinked hqueued)) hwaiting.automation error reportedAt)
        (s := s) ⟨hrun, hconsistent.1.run_automation k run hrun⟩
    refine ⟨record, hok, ?_⟩
    intro between mid hmeets hexec
    have hpending : isSettled record = false := by
      rw [hrecord]
      simp [isSettled, isPendingRuntimeLink, completedRun, hterminal,
        hwaiting.unstarted hqueued]
    have hfinished : record.status.isTerminal = true ∧ record.bridgeRunId = some b ∧
        record.startedAt = none ∧ record.automationId = run.automationId := by
      rw [hrecord]
      exact ⟨hterminal, rfl, hwaiting.unstarted hqueued, rfl⟩
    have hready := hlater hfinished.2.2.2 hpending hcalled hheld hmeets hexec
    obtain ⟨final, hdone, hfinal, hstored⟩ :=
      replies (markRunning_late env hk hb ht hfinished.1 hfinished.2.1 hfinished.2.2.1 linkedAt)
        hready.1
    refine ⟨hready.1, final, hdone, hstored, ?_⟩
    rw [hfinal, hrecord]
    exact ⟨rfl, rfl, rfl, rfl, rfl⟩

/-- A manual run, its outcome, a refused second run with other calls, and its late link. -/
def queuedRun : List Call :=
  [.create samplePayload "a" 0 true, .runNow "aut_a" true .null "k" "1" 1000000 true]

def earlyReport : Call :=
  .completeRuntimeRun "run_1" (dispatchRequestId "autrun_1") true .completed none 2000000 true

def otherCalls : List Call :=
  [.create samplePayload "b" 3000000 false, .schedulerSnapshot 4000000 true]

def lateLink : Call := .markRunning "autrun_1" (some "run_1") (some "thread_1") 5000000 true

theorem link_report_commute_early :
    ∃ s, Runs.exec (next sampleEnvironment) Store.initial queuedRun = some s ∧
      ∃ mid, Runs.exec (next sampleEnvironment) (perform sampleEnvironment earlyReport s).2
          otherCalls = some mid ∧
        ∃ final, (perform sampleEnvironment lateLink mid).1 = .ok (.run final) ∧
          Linked .completed "run_1" "thread_1" final := by
  have hqueued : ((Runs.exec (next sampleEnvironment) Store.initial queuedRun).bind
      fun s => s.state.runs.get? "autrun_1").any
        (fun r => r.status = .queued && r.automationId = "aut_a") = true := by
    decide +kernel
  have hmeets : (Runs.exec (next sampleEnvironment) Store.initial queuedRun).all
      (fun s => decide (Runs.Meets (next sampleEnvironment) (LeavesRun "autrun_1" "aut_a")
        (perform sampleEnvironment earlyReport s).2 otherCalls)) = true := by
    decide +kernel
  have hexec : (Runs.exec (next sampleEnvironment) Store.initial queuedRun).all
      (fun s => (Runs.exec (next sampleEnvironment) (perform sampleEnvironment earlyReport s).2
        otherCalls).isSome) = true := by
    decide +kernel
  obtain ⟨run, hstored, hrun⟩ := (Option.any_eq_true _ _).mp hqueued
  obtain ⟨s, hs, hfound⟩ := Option.bind_eq_some_iff.mp hstored
  rw [hs] at hmeets hexec
  obtain ⟨mid, hmid⟩ := Option.isSome_iff_exists.mp hexec
  simp only [Bool.and_eq_true, decide_eq_true_eq] at hrun
  have hterminal : RunStatus.completed.isTerminal = true := rfl
  obtain ⟨record, -, hlater⟩ := link_report_commute sampleEnvironment hs hfound hrun.1 (by decide)
    (b := "run_1") (t := "thread_1") (by decide) (by decide) hterminal none
    5000000 2000000 earlyReport lateLink (Or.inr ⟨rfl, rfl⟩)
  rw [hrun.2] at hlater
  obtain ⟨-, final, hdone, -, hlinked⟩ := hlater otherCalls mid (of_decide_eq_true hmeets) hmid
  exact ⟨s, hs, mid, hmid, final, hdone, hlinked⟩

end CodexBridge.Automations
