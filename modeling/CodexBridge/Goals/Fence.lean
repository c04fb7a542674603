import CodexBridge.Goals.Manager

/-! # The dispatch fence

A guard compares the id of the goal and its activation revision only. They determine the text of
an active goal, since its text can change only after a pause, and a pause takes a new revision.
-/

namespace CodexBridge.Goals

open Effect Runs

variable {F : Type}

/-! ## One action -/

theorem modelValidate_eq_ok {g : GoalFields} {r : GoalRecord}
    (h : g.modelValidate = .ok r) : r.toGoalFields = g := by
  unfold GoalFields.modelValidate at h
  split at h
  · cases h
    rfl
  · cases h

/-- What an action makes of the goal. It starts a new activation, or keeps the activation with
everything but the progress, or edits a paused goal. -/
def Follows (state : GoalState F) (a : GoalAction) (goal : GoalRecord) : Prop :=
  goal.activationRevision = state.revision + 1 ∨
    ∃ old, state.goal = some old ∧ goal.activationRevision = old.activationRevision ∧
      (old.status = .active → a.action = .progress ∧ goal.status = .active ∧
        goal.goalId = old.goalId ∧ goal.objective = old.objective ∧
          goal.completionCriteria = old.completionCriteria)

theorem changeGoal_follows {state : GoalState F} {old goal : GoalRecord} {a : GoalAction}
    {now : String} (hold : state.goal = some old)
    (h : changeGoal state old a now = .ok goal) : Follows state a goal := by
  unfold changeGoal at h
  obtain ⟨_, h⟩ := refuse_bind_eq_ok.mp h
  cases haction : a.action with
  | edit =>
    rw [haction] at h
    obtain ⟨hpaused, h⟩ := refuse_bind_eq_ok.mp h
    have hgoal := modelValidate_eq_ok h
    right
    refine ⟨old, hold, by rw [hgoal], ?_⟩
    intro hactive
    rw [hactive] at hpaused
    exact absurd (by decide) hpaused
  | progress =>
    rw [haction] at h
    have hgoal := modelValidate_eq_ok h
    right
    refine ⟨old, hold, by rw [hgoal], ?_⟩
    intro hactive
    rw [hgoal]
    exact ⟨haction, hactive, rfl, rfl, rfl⟩
  | create | pause | resume | complete | cancel =>
    rw [haction] at h
    left
    rw [modelValidate_eq_ok h]

theorem nextGoal_follows {state : GoalState F} {goal : GoalRecord} {a : GoalAction}
    {now goalId : String} (h : nextGoal state a now goalId = .ok goal) :
    Follows state a goal := by
  unfold nextGoal at h
  by_cases hcreate : a.action = .create
  · rw [if_pos hcreate] at h
    unfold createGoal at h
    obtain ⟨_, h⟩ := refuse_bind_eq_ok.mp h
    left
    rw [modelValidate_eq_ok h]
  rw [if_neg hcreate] at h
  cases hold : state.goal with
  | none =>
    rw [hold] at h
    cases h
  | some old =>
    rw [hold] at h
    exact changeGoal_follows hold h

/-- What a state looks like that an action makes durable. -/
structure Applies (state : GoalState F) (a : GoalAction) (new : GoalState F) : Prop where
  expected : a.expectedRevision = state.revision
  revision : new.revision = state.revision + 1
  goal : ∃ goal, new.goal = some goal ∧ Follows state a goal

theorem capture_current {w : World F} {snapshot : GoalSnapshot} {fails : Bool}
    (h : w.capture fails = .ok (some snapshot)) : w.file.goal = some snapshot.goal := by
  unfold World.capture at h
  obtain ⟨⟨thread, projectId, archived⟩, _, h⟩ := except_bind_eq_ok.mp h
  obtain ⟨state, hload, h⟩ := except_bind_eq_ok.mp h
  unfold World.load at hload
  split at hload
  · cases hload
  cases hload
  split at h
  · cases h
  rename_i goal hgoal
  split at h
  · split at h
    · cases h
      exact hgoal
    · cases h
  · cases h

def IsCurrent (w : World F) (snapshot : GoalSnapshot) : Prop :=
  ∃ goal, w.file.goal = some goal ∧ goal.status = .active ∧
    goal.goalId = snapshot.goal.goalId ∧ goal.activationRevision = snapshot.goal.activationRevision

theorem validateSnapshot_current {w : World F} {snapshot : GoalSnapshot} {fails : Bool}
    (h : w.validateSnapshot snapshot fails = .ok ()) : IsCurrent w snapshot := by
  unfold World.validateSnapshot at h
  obtain ⟨⟨thread, projectId, archived⟩, _, h⟩ := except_bind_eq_ok.mp h
  obtain ⟨state, hload, h⟩ := except_bind_eq_ok.mp h
  unfold World.load at hload
  split at hload
  · cases hload
  cases hload
  simp only at h
  split at h
  · cases h
  rename_i current hcurrent
  unfold refuse at h
  split at h
  · cases h
  rename_i hsame
  simp only [ne_eq, not_or, not_not] at hsame
  exact ⟨current, hcurrent, hsame.1, hsame.2.1, hsame.2.2.1⟩

structure Inv (w : World F) : Prop where
  activation : ∀ goal, w.file.goal = some goal → goal.activationRevision ≤ w.file.revision
  earlier : ∀ a ∈ w.applied, a.expectedRevision < w.file.revision
  once : w.applied.Nodup
  guarded : ∀ snapshot, w.guard = some (some snapshot) → IsCurrent w snapshot

theorem inv_initial (chat : Chat) : Inv (World.initial F chat) where
  activation goal h := by cases h
  earlier a h := by cases h
  once := List.nodup_nil
  guarded snapshot h := by cases h

theorem Follows.activation_le {state : GoalState F} {a : GoalAction} {goal : GoalRecord}
    (h : Follows state a goal)
    (hle : ∀ old, state.goal = some old → old.activationRevision ≤ state.revision) :
    goal.activationRevision ≤ state.revision + 1 := by
  rcases h with h | ⟨old, hold, h, _⟩
  · omega
  · have hbound := hle old hold
    omega

variable [DecidableEq F] {digest : GoalAction → F}

theorem plan_applies {w : World F} {a : GoalAction} {now goalId : String} {fails : Bool}
    {new : GoalState F} (h : w.plan digest a now goalId fails = .ok (some new)) :
    Applies w.file a new := by
  unfold World.plan at h
  obtain ⟨_, _, h⟩ := except_bind_eq_ok.mp h
  obtain ⟨state, hload, h⟩ := except_bind_eq_ok.mp h
  have hstate : state = w.file := by
    unfold World.load at hload
    split at hload
    · cases hload
    · cases hload
      rfl
  subst hstate
  split at h
  · obtain ⟨_, h⟩ := refuse_bind_eq_ok.mp h
    cases h
  obtain ⟨hexpected, h⟩ := refuse_bind_eq_ok.mp h
  obtain ⟨goal, hgoal, h⟩ := except_bind_eq_ok.mp h
  cases h
  exact ⟨not_not.mp hexpected, rfl, goal, rfl, nextGoal_follows hgoal⟩

theorem apply_applies {w : World F} {a : GoalAction} {now goalId : String} {f : Faults}
    {new : GoalState F} (h : (w.apply digest a now goalId f).2 = some new) :
    Applies w.file a new := by
  unfold World.apply at h
  split at h
  · cases h
  · cases h
  · rename_i state hplan
    split at h
    · cases h
      exact plan_applies hplan
    · cases h
    · cases h
      exact plan_applies hplan

/-- A step applies one action while no guard is held, or it leaves the file alone and holds no
guard that was not valid. -/
theorem next_cases {w t : World F} {l : Label} (h : w.next digest l = some t) :
    (∃ a, Applies w.file a t.file ∧ t.applied = w.applied ++ [a] ∧ t.guard = none) ∨
      t.file = w.file ∧ t.applied = w.applied ∧
        ∀ snapshot, t.guard = some (some snapshot) →
          w.guard = some (some snapshot) ∨ IsCurrent w snapshot := by
  cases l with
  | apply a now goalId faults =>
    rcases Option.ite_none_left_eq_some.mp h with ⟨hguard, h⟩
    cases hnew : (w.apply digest a now goalId faults).2 with
    | none =>
      rw [hnew] at h
      cases h
      exact Or.inr ⟨rfl, rfl, fun _ hs => Or.inl hs⟩
    | some state =>
      rw [hnew] at h
      cases h
      exact Or.inl ⟨a, apply_applies hnew, rfl, by simpa using hguard⟩
  | enter snapshot fails =>
    rcases Option.ite_none_left_eq_some.mp h with ⟨_, h⟩
    split at h
    · cases h
      refine Or.inr ⟨rfl, rfl, ?_⟩
      intro shown hshown
      cases hshown
    split at h
    · cases h
      exact Or.inr ⟨rfl, rfl, fun _ hs => Or.inl hs⟩
    rename_i hvalid
    cases h
    refine Or.inr ⟨rfl, rfl, ?_⟩
    intro shown hshown
    cases hshown
    exact Or.inr (validateSnapshot_current hvalid)
  | leave =>
    rcases Runs.taken h with ⟨_, rfl⟩
    refine Or.inr ⟨rfl, rfl, ?_⟩
    intro shown hshown
    cases hshown
  | capture _ | change _ _ =>
    cases h
    exact Or.inr ⟨rfl, rfl, fun _ hs => Or.inl hs⟩

theorem Inv.next {w t : World F} {l : Label} (h : Inv w) (ht : w.next digest l = some t) :
    Inv t := by
  rcases next_cases ht with ⟨a, happly, happlied, hguard⟩ | ⟨hfile, happlied, hguard⟩
  · obtain ⟨goal, hgoal, hfollows⟩ := happly.goal
    refine ⟨?_, ?_, ?_, ?_⟩
    · intro g hg
      rw [hgoal] at hg
      cases hg
      rw [happly.revision]
      exact hfollows.activation_le h.activation
    · intro b hb
      rw [happlied] at hb
      rw [happly.revision]
      rcases List.mem_append.mp hb with hb | hb
      · have hearlier := h.earlier b hb
        omega
      · rw [List.mem_singleton.mp hb, happly.expected]
        omega
    · rw [happlied]
      -- an action that was applied expects an earlier revision than the one it would meet
      have hnew : a ∉ w.applied := by
        intro ha
        have hearlier := h.earlier a ha
        have hexpected := happly.expected
        omega
      exact List.nodup_append.mpr ⟨h.once, by simp, by
        intro x hx y hy heq
        rw [List.mem_singleton.mp hy] at heq
        exact hnew (heq ▸ hx)⟩
    · intro snapshot hs
      rw [hguard] at hs
      cases hs
  · refine ⟨?_, ?_, ?_, ?_⟩
    · rw [hfile]
      exact h.activation
    · rw [hfile, happlied]
      exact h.earlier
    · rw [happlied]
      exact h.once
    · intro snapshot hs
      have hcurrent : IsCurrent w snapshot := by
        rcases hguard snapshot hs with hold | hcurrent
        · exact h.guarded snapshot hold
        · exact hcurrent
      unfold IsCurrent
      rw [hfile]
      exact hcurrent

def Unchanged (s : World F) (shown : GoalRecord) (t : World F) : Prop :=
  ∃ goal since, t.file.goal = some goal ∧ goal.status = .active ∧
    goal.objective = shown.objective ∧ goal.completionCriteria = shown.completionCriteria ∧
      t.applied = s.applied ++ since ∧ ∀ a ∈ since, a.action = .progress

def Since (s : World F) (shown : GoalRecord) (t : World F) : Prop :=
  shown.activationRevision ≤ t.file.revision ∧
    (Unchanged s shown t ∨
      ∀ goal, t.file.goal = some goal → shown.activationRevision < goal.activationRevision)

theorem Since.next {s t u : World F} {shown : GoalRecord} {l : Label} (h : Since s shown t)
    (hu : t.next digest l = some u) : Since s shown u := by
  obtain ⟨hle, h⟩ := h
  rcases next_cases hu with ⟨a, happly, happlied, _⟩ | ⟨hfile, happlied, _⟩
  · obtain ⟨new, hnew, hfollows⟩ := happly.goal
    refine ⟨by rw [happly.revision]; omega, ?_⟩
    rcases hfollows with hfresh | ⟨old, hold, hsame, hkept⟩
    · right
      intro goal hgoal
      rw [hnew] at hgoal
      cases hgoal
      omega
    rcases h with ⟨goal, since, hgoal, hactive, hobjective, hcriteria, hsince, hprogress⟩ | h
    · left
      rw [hold] at hgoal
      cases hgoal
      obtain ⟨haction, hstatus, _, hobjective', hcriteria'⟩ := hkept hactive
      refine ⟨new, since ++ [a], hnew, hstatus, hobjective'.trans hobjective,
        hcriteria'.trans hcriteria, ?_, ?_⟩
      · rw [happlied, hsince, List.append_assoc]
      intro b hb
      rcases List.mem_append.mp hb with hb | hb
      · exact hprogress b hb
      · rw [List.mem_singleton.mp hb]
        exact haction
    · right
      intro goal hgoal
      rw [hnew] at hgoal
      cases hgoal
      have hlater := h old hold
      omega
  · unfold Since Unchanged
    rw [hfile, happlied]
    exact ⟨hle, h⟩

/-- In every run: whatever happened since a snapshot was captured, where a guard accepts it, and
as long as the guard is held, the goal is active with the text of the snapshot and only progress
was applied since. No action is applied twice. -/
theorem dispatchGuard_fences (chat : Chat) (before after : List Label) (s u : World F)
    (snapshot : GoalSnapshot) (fails : Bool)
    (hs : exec (World.next digest) (.initial F chat) before = some s)
    (hcapture : s.capture fails = .ok (some snapshot))
    (hu : exec (World.next digest) s after = some u) :
    (∀ fails', u.validateSnapshot snapshot fails' = .ok () → Unchanged s snapshot.goal u) ∧
      (u.guard = some (some snapshot) → Unchanged s snapshot.goal u) ∧ u.applied.Nodup := by
  have hinv : Inv s := invariant (fun _ _ _ h ht => Inv.next h ht) (inv_initial chat) hs
  have hinv' : Inv u := invariant (fun _ _ _ h ht => Inv.next h ht) hinv hu
  have hgoal := capture_current hcapture
  have hstart : Since s snapshot.goal s := by
    refine ⟨hinv.activation _ hgoal, Or.inl ⟨snapshot.goal, [], hgoal, snapshot.active, rfl, rfl,
      (List.append_nil _).symm, ?_⟩⟩
    intro a ha
    cases ha
  have hsince : Since s snapshot.goal u :=
    invariant (fun _ _ _ h ht => Since.next h ht) hstart hu
  have hkept : IsCurrent u snapshot → Unchanged s snapshot.goal u := by
    rintro ⟨goal, hcurrent, _, _, hactivation⟩
    rcases hsince.2 with hsame | hlater
    · exact hsame
    · have hlt := hlater goal hcurrent
      omega
  refine ⟨?_, ?_, hinv'.once⟩
  · intro fails' hvalid
    exact hkept (validateSnapshot_current hvalid)
  · intro hguard
    exact hkept (hinv'.guarded snapshot hguard)

def sampleChat : Chat := ⟨"chat", true, some ⟨false, some "home", false, "/work"⟩, some false⟩

def sampleGoalId : String := "goal_0123456789abcdef0123456789abcdef"

def created : GoalAction where
  action := .create
  expectedRevision := 0
  clientRequestId := "a"
  objective := some "Ship it"
  completionCriteria := some ["Tests pass"]
  progress := none
  completionConfirmed := false
  valid := by decide +kernel

def resumed : GoalAction where
  action := .resume
  expectedRevision := 1
  clientRequestId := "b"
  objective := none
  completionCriteria := none
  progress := none
  completionConfirmed := false
  valid := by decide +kernel

def progressed : GoalAction where
  action := .progress
  expectedRevision := 2
  clientRequestId := "c"
  objective := none
  completionCriteria := none
  progress := some "Half of it"
  completionConfirmed := false
  valid := by decide +kernel

def applies (a : GoalAction) : Label := .apply a "now" sampleGoalId ⟨false, .stored, false⟩

theorem dispatchGuard_fences_progressed : ∃ s u snapshot,
    exec (World.next id) (.initial GoalAction sampleChat) [applies created, applies resumed] =
      some s ∧ s.capture false = .ok (some snapshot) ∧
        exec (World.next id) s [applies progressed, .enter (some snapshot) false] = some u ∧
          Unchanged s snapshot.goal u := by
  have hrun : ((exec (World.next id) (.initial GoalAction sampleChat)
      [applies created, applies resumed]).any fun s =>
        (s.capture false).toOption.join.any fun snapshot =>
          (exec (World.next id) s [applies progressed, .enter (some snapshot) false]).any
            fun u => decide (u.guard = some (some snapshot))) = true := by
    decide +kernel
  obtain ⟨s, hs, hrun⟩ := (Option.any_eq_true _ _).mp hrun
  obtain ⟨snapshot, hsnapshot, hrun⟩ := (Option.any_eq_true _ _).mp hrun
  obtain ⟨u, hu, hguard⟩ := (Option.any_eq_true _ _).mp hrun
  have hcapture : s.capture false = .ok (some snapshot) := by
    cases hc : s.capture false with
    | error e =>
      rw [hc] at hsnapshot
      cases hsnapshot
    | ok captured =>
      rw [hc] at hsnapshot
      exact congrArg Except.ok hsnapshot
  have hfences := dispatchGuard_fences sampleChat _ _ s u snapshot false hs hcapture hu
  exact ⟨s, u, snapshot, hs, hcapture, hu, hfences.2.1 (of_decide_eq_true hguard)⟩

/-- The n-th action that a run applies was meant for revision n: no two of them met the same
goal, and the file counts them all. -/
theorem applied_linear (chat : Chat) (labels : List Label) (s : World F)
    (hs : exec (World.next digest) (.initial F chat) labels = some s) :
    s.applied.map (·.expectedRevision) = List.range s.file.revision := by
  refine invariant (I := fun s : World F => s.applied.map (·.expectedRevision) =
    List.range s.file.revision) ?_ rfl hs
  intro w l t h ht
  rcases next_cases ht with ⟨a, happly, happlied, _⟩ | ⟨hfile, happlied, _⟩
  · rw [happlied, happly.revision, List.map_append, h, List.range_succ, ← happly.expected]
    rfl
  · rw [happlied, hfile]
    exact h

theorem applied_linear_resumed : ∃ s,
    exec (World.next id) (.initial GoalAction sampleChat) [applies created, applies resumed] =
      some s ∧ s.applied.map (·.expectedRevision) = [0, 1] := by
  have hrun : ((exec (World.next id) (.initial GoalAction sampleChat)
      [applies created, applies resumed]).any fun s => decide (s.file.revision = 2)) = true := by
    decide +kernel
  obtain ⟨s, hs, htwo⟩ := (Option.any_eq_true _ _).mp hrun
  have hlinear := applied_linear sampleChat _ s hs
  rw [of_decide_eq_true htwo] at hlinear
  exact ⟨s, hs, hlinear⟩

end CodexBridge.Goals
