import Mathlib.Data.List.Dedup
import CodexBridge.Automations.RunFates

/-! # What pruning keeps

Pruning applies two limits in turn, first to the runs of each automation and then to all of
them. Active runs, runs whose link is still to come and protected runs are outside both, but
protected runs use up room.
-/

namespace CodexBridge.Automations

/-! ## One limit -/

def unprotected (protectedIds : List String) (runs : List Run) : List Run :=
  runs.filter fun r => r.automationRunId ∉ protectedIds

def protectedCount (protectedIds : List String) (runs : List Run) : Nat :=
  (runs.filter fun r => r.automationRunId ∈ protectedIds).length

/-- The runs whose ids are not in `remove`. -/
def remaining (remove : List String) (runs : List Run) : List Run :=
  runs.filter fun r => r.automationRunId ∉ remove

section

variable {protectedIds remove : List String} {runs : List Run} {limit : Nat}

theorem length_eq_protectedCount_add (protectedIds : List String) (runs : List Run) :
    runs.length = protectedCount protectedIds runs + (unprotected protectedIds runs).length := by
  have hcount := List.length_eq_length_filter_add (l := runs)
    (fun r => decide (r.automationRunId ∈ protectedIds))
  simpa [protectedCount, unprotected] using hcount

theorem unprotected_remaining :
    unprotected protectedIds (remaining remove runs) =
      remaining remove (unprotected protectedIds runs) :=
  List.filter_comm _ _ _

theorem protectedCount_remaining (h : ∀ k ∈ remove, k ∉ protectedIds) :
    protectedCount protectedIds (remaining remove runs) = protectedCount protectedIds runs := by
  unfold protectedCount remaining
  rw [List.filter_filter]
  congr 1
  apply List.filter_congr
  intro r _
  by_cases hr : r.automationRunId ∈ protectedIds
  · have hkept : r.automationRunId ∉ remove := fun hm => h _ hm hr
    simp [hr, hkept]
  · simp [hr]

theorem remaining_append {remove' : List String} :
    remaining (remove ++ remove') runs = remaining remove' (remaining remove runs) := by
  unfold remaining
  rw [List.filter_filter]
  apply List.filter_congr
  intro r _
  simp [Bool.and_comm]

theorem length_remaining_le {remove' : List String} (h : ∀ k ∈ remove, k ∈ remove') :
    (remaining remove' runs).length ≤ (remaining remove runs).length := by
  apply List.Sublist.length_le
  apply List.monotone_filter_right
  intro r hr
  simp only [decide_eq_true_eq] at hr ⊢
  exact fun hm => hr (h _ hm)

theorem isRetainedBefore_total (a b : Run) :
    isRetainedBefore a b = true ∨ isRetainedBefore b a = true := by
  unfold isRetainedBefore
  have hids := String.le_total a.automationRunId b.automationRunId
  simp only [Bool.or_eq_true, Bool.and_eq_true, decide_eq_true_eq]
  rcases lt_trichotomy (a.completedAt.getD a.createdAt) (b.completedAt.getD b.createdAt) with
    hlt | heq | hgt
  · exact Or.inr (Or.inl hlt)
  · rcases hids with hle | hle
    · exact Or.inr (Or.inr ⟨heq.symm, hle⟩)
    · exact Or.inl (Or.inr ⟨heq, hle⟩)
  · exact Or.inl (Or.inl hgt)

theorem isRetainedBefore_trans {a b c : Run} (hab : isRetainedBefore a b = true)
    (hbc : isRetainedBefore b c = true) : isRetainedBefore a c = true := by
  unfold isRetainedBefore at hab hbc ⊢
  simp only [Bool.or_eq_true, Bool.and_eq_true, decide_eq_true_eq] at hab hbc ⊢
  rcases hab with hlt | ⟨heq, hid⟩
  · rcases hbc with hlt' | ⟨heq', _⟩
    · exact Or.inl (by omega)
    · exact Or.inl (by omega)
  · rcases hbc with hlt' | ⟨heq', hid'⟩
    · exact Or.inl (by omega)
    · exact Or.inr ⟨by omega, String.le_trans hid' hid⟩

/-- The candidates in the order of `_prune_runs`. -/
def sortedCandidates (protectedIds : List String) (runs : List Run) : List Run :=
  (unprotected protectedIds runs).insertionSort fun a b => isRetainedBefore a b = true

theorem perm_sortedCandidates :
    (sortedCandidates protectedIds runs).Perm (unprotected protectedIds runs) :=
  List.perm_insertionSort _ _

theorem pairwise_sortedCandidates (protectedIds : List String) (runs : List Run) :
    (sortedCandidates protectedIds runs).Pairwise fun a b => isRetainedBefore a b = true := by
  have htotal : Std.Total fun a b : Run => isRetainedBefore a b = true := ⟨isRetainedBefore_total⟩
  have htrans : IsTrans Run fun a b => isRetainedBefore a b = true :=
    ⟨fun _ _ _ => isRetainedBefore_trans⟩
  exact List.pairwise_insertionSort _ _

theorem beyondLimit_eq (limit : Nat) :
    beyondLimit limit protectedIds runs = ((sortedCandidates protectedIds runs).drop
      (limit - protectedCount protectedIds runs)).map Run.automationRunId := rfl

/-- What is left of the candidates fits in the room that the protected runs leave. -/
theorem length_remaining_beyondLimit :
    (remaining (beyondLimit limit protectedIds runs) (unprotected protectedIds runs)).length ≤
      limit - protectedCount protectedIds runs := by
  have hsplit := List.take_append_drop (limit - protectedCount protectedIds runs)
    (sortedCandidates protectedIds runs)
  have hperm : (remaining (beyondLimit limit protectedIds runs)
      (unprotected protectedIds runs)).Perm
        (remaining (beyondLimit limit protectedIds runs) (sortedCandidates protectedIds runs)) :=
    perm_sortedCandidates.symm.filter _
  have hdropped : remaining (beyondLimit limit protectedIds runs)
      ((sortedCandidates protectedIds runs).drop
        (limit - protectedCount protectedIds runs)) = [] := by
    unfold remaining
    rw [List.filter_eq_nil_iff]
    intro r hr
    have hmem : r.automationRunId ∈ beyondLimit limit protectedIds runs :=
      List.mem_map_of_mem hr
    simp [hmem]
  have htaken := List.length_filter_le
    (fun r : Run => decide (r.automationRunId ∉ beyondLimit limit protectedIds runs))
    ((sortedCandidates protectedIds runs).take (limit - protectedCount protectedIds runs))
  rw [List.length_take] at htaken
  rw [hperm.length_eq, ← hsplit]
  unfold remaining at hdropped ⊢
  rw [List.filter_append, hdropped, List.append_nil]
  omega

theorem beyondLimit_eq_nil
    (h : (unprotected protectedIds runs).length ≤ limit - protectedCount protectedIds runs) :
    beyondLimit limit protectedIds runs = [] := by
  rw [beyondLimit_eq, List.map_eq_nil_iff, List.drop_eq_nil_iff, perm_sortedCandidates.length_eq]
  exact h

theorem oldest_of_mem_beyondLimit {k : String} (h : k ∈ beyondLimit limit protectedIds runs) :
    ∃ r ∈ unprotected protectedIds runs, r.automationRunId = k ∧
      ∀ r' ∈ unprotected protectedIds runs,
        r'.automationRunId ∉ beyondLimit limit protectedIds runs →
          isRetainedBefore r' r = true := by
  rw [beyondLimit_eq] at h
  obtain ⟨r, hr, hid⟩ := List.mem_map.mp h
  refine ⟨r, perm_sortedCandidates.mem_iff.mp (List.mem_of_mem_drop hr), hid, ?_⟩
  intro r' hr' hkept
  have hsorted := pairwise_sortedCandidates protectedIds runs
  rw [← List.take_append_drop (limit - protectedCount protectedIds runs)
    (sortedCandidates protectedIds runs), List.pairwise_append] at hsorted
  have hmem := perm_sortedCandidates.mem_iff.mpr hr'
  rw [← List.take_append_drop (limit - protectedCount protectedIds runs)
    (sortedCandidates protectedIds runs), List.mem_append] at hmem
  cases hmem with
  | inl htaken => exact hsorted.2.2 r' htaken r hr
  | inr hdropped => exact absurd (List.mem_map_of_mem hdropped) hkept

end

/-! ## Both limits -/

/-- The runs that pruning may remove, protected ones among them. -/
def settledRuns (s : State) : List Run := s.runs.values.filter isSettled

def settledRunsOf (s : State) (automationId : String) : List Run :=
  (settledRuns s).filter fun r => r.automationId = automationId

def overAutomation (env : Environment) (protectedIds : List String) (s : State) : List String :=
  ((settledRuns s).map Run.automationId).dedup.flatMap fun a =>
    beyondLimit env.maxRunsPerAutomation protectedIds (settledRunsOf s a)

section

variable {env : Environment} {protectedIds : List String} {s : State}

theorem Named.values_filter (h : Named s) (q : String → Run → Bool) :
    (s.runs.filter q).values = s.runs.values.filter fun r => q r.automationRunId r := by
  show ((s.runs.entries.filter fun e => q e.1 e.2).map Prod.snd) = _
  unfold Dict.values
  rw [List.filter_map]
  congr 1
  apply List.filter_congr
  intro e he
  have hid := h e.1 e.2 ((Dict.get?_eq_some_iff _ _ _).mpr he)
  simp [hid]

theorem prunedRuns_eq (h : Named s) :
    prunedRuns env protectedIds s = overAutomation env protectedIds s ++
      beyondLimit env.maxTotalRuns protectedIds
        (remaining (overAutomation env protectedIds s) (settledRuns s)) := by
  show overAutomation env protectedIds s ++ beyondLimit env.maxTotalRuns protectedIds
    (s.runs.filter fun k r =>
      decide (k ∉ overAutomation env protectedIds s) && isSettled r).values = _
  rw [h.values_filter]
  unfold remaining settledRuns
  rw [List.filter_filter]

theorem values_pruneRuns (h : Named s) :
    (pruneRuns env protectedIds s).runs.values =
      remaining (prunedRuns env protectedIds s) s.runs.values := by
  unfold pruneRuns
  simp only
  cases hp : prunedRuns env protectedIds s with
  | nil => exact (List.filter_eq_self.mpr fun _ _ => by simp).symm
  | cons k rest => exact h.values_filter _

theorem settledRuns_pruneRuns (h : Named s) :
    settledRuns (pruneRuns env protectedIds s) =
      remaining (prunedRuns env protectedIds s) (settledRuns s) := by
  unfold settledRuns
  rw [values_pruneRuns h]
  exact List.filter_comm _ _ _

theorem settledRunsOf_pruneRuns (h : Named s) (automationId : String) :
    settledRunsOf (pruneRuns env protectedIds s) automationId =
      remaining (prunedRuns env protectedIds s) (settledRunsOf s automationId) := by
  unfold settledRunsOf
  rw [settledRuns_pruneRuns h]
  exact List.filter_comm _ _ _

theorem not_protected_of_mem {k : String} (h : k ∈ prunedRuns env protectedIds s) :
    k ∉ protectedIds :=
  (settled_of_mem_prunedRuns h).1

theorem length_unprotected_of (h : Named s) (automationId : String) :
    (unprotected protectedIds
      (settledRunsOf (pruneRuns env protectedIds s) automationId)).length ≤
      env.maxRunsPerAutomation - protectedCount protectedIds
        (settledRunsOf (pruneRuns env protectedIds s) automationId) := by
  rw [settledRunsOf_pruneRuns h, unprotected_remaining,
    protectedCount_remaining fun k hk => not_protected_of_mem hk]
  by_cases hany : automationId ∈ (settledRuns s).map Run.automationId
  · refine le_trans (length_remaining_le ?_) length_remaining_beyondLimit
    intro k hk
    rw [prunedRuns_eq h]
    exact List.mem_append_left _ (List.mem_flatMap.mpr ⟨_, List.mem_dedup.mpr hany, hk⟩)
  have hempty : settledRunsOf s automationId = [] := by
    unfold settledRunsOf
    rw [List.filter_eq_nil_iff]
    intro r hr
    have hne : r.automationId ≠ automationId :=
      fun heq => hany (heq ▸ List.mem_map_of_mem hr)
    simpa using hne
  rw [hempty]
  exact Nat.zero_le _

theorem length_unprotected (h : Named s) :
    (unprotected protectedIds (settledRuns (pruneRuns env protectedIds s))).length ≤
      env.maxTotalRuns - protectedCount protectedIds
        (settledRuns (pruneRuns env protectedIds s)) := by
  rw [settledRuns_pruneRuns h, prunedRuns_eq h, remaining_append, unprotected_remaining,
    protectedCount_remaining fun k hk hp => beyondLimit_not_mem hp hk]
  exact length_remaining_beyondLimit

theorem prunedRuns_pruneRuns (h : Named s) :
    prunedRuns env protectedIds (pruneRuns env protectedIds s) = [] := by
  have hover : overAutomation env protectedIds (pruneRuns env protectedIds s) = [] := by
    unfold overAutomation
    rw [List.flatMap_eq_nil_iff]
    intro a _
    exact beyondLimit_eq_nil (length_unprotected_of h a)
  rw [prunedRuns_eq (h.pruneRuns env protectedIds), hover, List.nil_append]
  apply beyondLimit_eq_nil
  have hall : remaining [] (settledRuns (pruneRuns env protectedIds s)) =
      settledRuns (pruneRuns env protectedIds s) := List.filter_eq_self.mpr fun _ _ => by simp
  rw [hall]
  exact length_unprotected h

theorem mem_settledRuns {k : String} {run : Run} (hg : s.runs.get? k = some run)
    (hsettled : isSettled run = true) : run ∈ settledRuns s :=
  List.mem_filter.mpr ⟨Dict.mem_values_of_get? hg, hsettled⟩

theorem Named.eq_of_mem (h : Named s) {k : String} {run r : Run} (hg : s.runs.get? k = some run)
    (hr : r ∈ settledRuns s) (hid : r.automationRunId = k) : r = run := by
  obtain ⟨k', hk'⟩ := (Dict.mem_values_iff _ r).mp (List.mem_of_mem_filter hr)
  rw [← h k' r hk', hid, hg] at hk'
  exact (Option.some.inj hk').symm

/-- A run that is removed comes after every candidate of its automation that is kept. -/
theorem oldest_of_mem_prunedRuns (h : Named s) {k k' : String} {run run' : Run}
    (hg : s.runs.get? k = some run) (hm : k ∈ prunedRuns env protectedIds s)
    (hg' : s.runs.get? k' = some run') (hkept : k' ∉ prunedRuns env protectedIds s)
    (hsettled : isSettled run' = true) (hfree : k' ∉ protectedIds)
    (hsame : run'.automationId = run.automationId) : isRetainedBefore run' run = true := by
  have hid' : run'.automationRunId = k' := h k' run' hg'
  have hmem' := mem_settledRuns hg' hsettled
  rw [prunedRuns_eq h, List.mem_append] at hm hkept
  push Not at hkept
  have hcandidate : ∀ runs, run' ∈ runs → run' ∈ unprotected protectedIds runs :=
    fun runs hr => List.mem_filter.mpr ⟨hr, by simpa [hid'] using hfree⟩
  cases hm with
  | inl hover =>
    obtain ⟨a, ha, hbeyond⟩ := List.mem_flatMap.mp hover
    obtain ⟨r, hr, hid, hold⟩ := oldest_of_mem_beyondLimit hbeyond
    have hof := List.mem_filter.mp (List.mem_of_mem_filter hr)
    have hrun : r = run := h.eq_of_mem hg hof.1 hid
    have hauto : run.automationId = a := by simpa [hrun] using hof.2
    rw [hrun] at hold
    apply hold
    · exact hcandidate _ (List.mem_filter.mpr ⟨hmem', by simp [hsame, hauto]⟩)
    · rw [hid']
      exact fun hb => hkept.1 (List.mem_flatMap.mpr ⟨a, ha, hb⟩)
  | inr htotal =>
    obtain ⟨r, hr, hid, hold⟩ := oldest_of_mem_beyondLimit htotal
    have hof := List.mem_of_mem_filter (List.mem_of_mem_filter hr)
    rw [h.eq_of_mem hg hof hid] at hold
    apply hold
    · exact hcandidate _ (List.mem_filter.mpr ⟨hmem', by simpa [hid'] using hkept.1⟩)
    · rw [hid']
      exact hkept.2

end

/-- What pruning does to a state. -/
structure Pruned (env : Environment) (protectedIds : List String) (s t : State) : Prop where
  kept : ∀ k run, s.runs.get? k = some run →
    run.status.isActive = true ∨ isPendingRuntimeLink run = true ∨ k ∈ protectedIds →
      t.runs.get? k = some run
  perAutomation : ∀ a, (settledRunsOf t a).length ≤
    max env.maxRunsPerAutomation (protectedCount protectedIds (settledRunsOf t a))
  total : (settledRuns t).length ≤
    max env.maxTotalRuns (protectedCount protectedIds (settledRuns t))
  oldest : ∀ k run k' run', s.runs.get? k = some run → t.runs.get? k = none →
    t.runs.get? k' = some run' → isSettled run' = true → k' ∉ protectedIds →
      run'.automationId = run.automationId → isRetainedBefore run' run = true
  again : pruneRuns env protectedIds t = t

theorem pruneRuns_pruned (env : Environment) (protectedIds : List String) (s : State)
    (h : Named s) : Pruned env protectedIds s (pruneRuns env protectedIds s) where
  kept := by
    intro k run hg hexempt
    rw [pruneRuns_get?, if_neg, hg]
    intro hm
    obtain ⟨hfree, r, hr, hsettled, hid⟩ := settled_of_mem_prunedRuns hm
    rw [h.eq_of_mem hg (List.mem_filter.mpr ⟨hr, hsettled⟩) hid] at hsettled
    rcases hexempt with hactive | hlink | hprotected
    · simp [isSettled, hactive] at hsettled
    · simp [isSettled, hlink] at hsettled
    · exact hfree hprotected
  perAutomation := by
    intro a
    have hroom :
      (unprotected protectedIds (settledRunsOf (pruneRuns env protectedIds s) a)).length ≤
        _ := length_unprotected_of h a
    have hcount := length_eq_protectedCount_add protectedIds
      (settledRunsOf (pruneRuns env protectedIds s) a)
    omega
  total := by
    have hroom : (unprotected protectedIds (settledRuns (pruneRuns env protectedIds s))).length ≤
        _ := length_unprotected h
    have hcount := length_eq_protectedCount_add protectedIds
      (settledRuns (pruneRuns env protectedIds s))
    omega
  oldest := by
    intro k run k' run' hg hgone hg' hsettled hfree hsame
    rw [pruneRuns_get?] at hgone hg'
    have hm : k ∈ prunedRuns env protectedIds s := by
      by_contra hkept
      rw [if_neg hkept, hg] at hgone
      cases hgone
    have hkept : k' ∉ prunedRuns env protectedIds s := by
      intro hm'
      rw [if_pos hm'] at hg'
      cases hg'
    rw [if_neg hkept] at hg'
    exact oldest_of_mem_prunedRuns h hg hm hg' hkept hsettled hfree hsame
  again := by
    have hnone : prunedRuns env protectedIds (pruneRuns env protectedIds s) = [] :=
      prunedRuns_pruneRuns h
    unfold pruneRuns at hnone ⊢
    simp only at hnone ⊢
    rw [hnone]
    rfl

def smallEnvironment : Environment :=
  { sampleEnvironment with maxRunsPerAutomation := 1, limits := by decide }

def sampleRun (id : String) (status : RunStatus) (createdAt : Int) (completedAt : Option Int) :
    Run where
  automationRunId := id
  automationId := "aut"
  source := .manual
  dueAt := createdAt
  status := status
  dispatchable := status.isActive
  idempotencyKey := "manual:" ++ id
  createdAt := createdAt
  startedAt := none
  completedAt := completedAt
  bridgeRunId := none
  error := none
  webSearch := none
  threadId := none
  notifications := ⟨.off, true, [], false⟩
  notificationsRevision := 1

/-- A run that has been active for long, and two later ones that are over. -/
def longRunState : State :=
  { State.empty with
    runs := Dict.ofList [("a", sampleRun "a" .queued 1 none),
      ("b", sampleRun "b" .skippedOverlap 2 (some 2)),
      ("c", sampleRun "c" .skippedOverlap 3 (some 3))] }

theorem named_longRunState : Named longRunState := by
  intro k r hg
  have hmem := (Dict.get?_eq_some_iff _ _ _).mp hg
  have hall : ∀ e ∈ longRunState.runs.entries, e.2.automationRunId = e.1 := by decide
  exact hall (k, r) hmem

theorem longRunState_pruned :
    Pruned smallEnvironment [] longRunState (pruneRuns smallEnvironment [] longRunState) :=
  pruneRuns_pruned smallEnvironment [] longRunState named_longRunState

/-- A removed run can be newer than an active one of its automation. -/
theorem exists_removed_newer : Named longRunState ∧
    longRunState.runs.get? "b" = some (sampleRun "b" .skippedOverlap 2 (some 2)) ∧
    (pruneRuns smallEnvironment [] longRunState).runs.get? "b" = none ∧
    (pruneRuns smallEnvironment [] longRunState).runs.get? "a" =
      some (sampleRun "a" .queued 1 none) ∧
    isRetainedBefore (sampleRun "a" .queued 1 none)
      (sampleRun "b" .skippedOverlap 2 (some 2)) = false :=
  ⟨named_longRunState, rfl, rfl, rfl, by decide +kernel⟩

end CodexBridge.Automations
