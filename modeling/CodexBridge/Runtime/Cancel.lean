import CodexBridge.Runtime.Gate

/-! # Cancelling beside other calls

`cancel` tests its lease in one section and finishes it in a second. What runs between the
two can hand the lease a slot, and the second section does not look again.
-/

namespace CodexBridge.Runtime.Gate

open Effect

/-! ## The calls between the two sections -/

/-- The section works on this lease through its handle. -/
def Section.names (i : Nat) : Section → Bool
  | .release j => j = i
  | .cancelLook j => j = i
  | .cancelFinish j => j = i
  | .look j _ => j = i
  | .reserve _ | .acquireAuth | .acquireConfig | .close => false

def promotes (i : Nat) : GateThreads → List Section → Bool
  | _, [] => false
  | s, c :: rest =>
    match s.next c with
    | none => false
    | some t => t.gate.stateOf i = some .active || promotes i t rest

/-- The lease left the queue or nothing happened; no slot became free or changed hands. -/
structure Spares (i : Nat) (g t : Gate) : Prop where
  finished : t = g ∨ g.stateOf i = some .queued ∧ t.stateOf i = some .cancelled
  slots : t.activePrompts = g.activePrompts
  promoted : ∀ j, t.stateOf j = some .active → g.stateOf j = some .active

section

variable {g : Gate} {i j : Nat} {state : LeaseState}

theorem stateOf_congr {t : Gate} (h : t.leases = g.leases) (i : Nat) :
    t.stateOf i = g.stateOf i := by
  unfold stateOf
  rw [h]

theorem stateOf_setState_ne (hne : i ≠ j) : (g.setState j state).stateOf i = g.stateOf i := by
  unfold setState stateOf
  cases hget : g.leases[j]? with
  | none => rfl
  | some lease =>
    show (g.leases.set j _)[i]?.map Lease.state = _
    rw [List.getElem?_set_ne (fun he => hne he.symm)]

theorem stateOf_setState_self {lease : Lease} (hget : g.leases[i]? = some lease) :
    (g.setState i state).stateOf i = some state := by
  rw [setState_eq hget]
  unfold stateOf
  rw [getElem?_withState hget, if_pos rfl]
  rfl

theorem stateOf_append (lease : Lease) (h : g.stateOf i = some state) {t : Gate}
    (ht : t.leases = g.leases ++ [lease]) : t.stateOf i = some state := by
  unfold stateOf at h ⊢
  obtain ⟨old, hold, hstate⟩ := Option.map_eq_some_iff.mp h
  have hlt : i < g.leases.length := (List.getElem?_eq_some_iff.mp hold).choose
  rw [ht, getElem?_append_singleton, if_neg (by omega), hold, Option.map_some, hstate]

end

/-! ## An active lease stays active -/

section

variable {g : Gate} {i : Nat}

theorem stateOf_promoteFrom (q : List Nat) (g : Gate) (h : g.stateOf i ≠ some .queued) :
    (promoteFrom q g).stateOf i = g.stateOf i := by
  induction q generalizing g with
  | nil => rfl
  | cons j rest ih =>
    unfold promoteFrom
    split
    · split
      · rename_i hqueued
        have hne : i ≠ j := by
          intro he
          rw [he] at h
          exact h hqueued
        have hset : (g.setState j .active).stateOf i = g.stateOf i := stateOf_setState_ne hne
        rw [ih]
        · exact hset
        show (g.setState j .active).stateOf i ≠ some .queued
        rw [hset]
        exact h
      · exact ih g h
    · rfl

theorem stateOf_promoteLocked (h : g.stateOf i ≠ some .queued) :
    g.promoteLocked.stateOf i = g.stateOf i := by
  unfold promoteLocked
  split
  · rfl
  · exact stateOf_promoteFrom g.queue g h

theorem stateOf_finishLocked_self {lease : Lease} (hget : g.leases[i]? = some lease)
    (hlive : lease.isLive = true) (ending : Ending) :
    (g.finishLocked i ending).stateOf i = some ending.state := by
  have hset : (g.setState i ending.state).stateOf i = some ending.state :=
    stateOf_setState_self hget
  unfold finishLocked
  rw [hget]
  dsimp only
  rw [if_pos hlive]
  split
  · exact hset
  · exact hset
  · have hdropped : (g.dropPrompt i lease ending).stateOf i = some ending.state := hset
    rw [stateOf_promoteLocked, hdropped]
    rw [hdropped]
    cases ending with
    | _ => decide

theorem stateOf_finishLocked {j : Nat} (hne : i ≠ j) (ending : Ending)
    (h : g.stateOf i = some .active) : (g.finishLocked j ending).stateOf i = some .active := by
  have hset : (g.setState j ending.state).stateOf i = some .active := by
    rw [stateOf_setState_ne hne]
    exact h
  unfold finishLocked
  split
  · exact h
  split
  · split
    · exact hset
    · exact hset
    · rename_i lease _ _ _ _
      have hdropped : (g.dropPrompt j lease ending).stateOf i = some .active := hset
      rw [stateOf_promoteLocked, hdropped]
      rw [hdropped]
      decide
  · exact h

theorem stateOf_closeFrom (q : List Nat) (g : Gate) (hq : i ∉ q) :
    (closeFrom q g).stateOf i = g.stateOf i := by
  induction q generalizing g with
  | nil => rfl
  | cons j rest ih =>
    rw [List.mem_cons, not_or] at hq
    unfold closeFrom
    rw [ih _ hq.2]
    exact stateOf_setState_ne hq.1

theorem Consistent.not_mem_queue (h : Consistent g) (hactive : g.stateOf i = some .active) :
    i ∉ g.queue := by
  intro hm
  obtain ⟨lease, hget, _, hqueued⟩ := (h.queued i).mp hm
  unfold stateOf at hactive
  rw [hget, Option.map_some, hqueued] at hactive
  cases hactive

theorem stateOf_reservePrompt {id : String} {j : Nat} {t : Gate}
    (hr : g.reservePrompt id = .ok (j, t)) (h : g.stateOf i = some .active) :
    t.stateOf i = some .active := by
  unfold reservePrompt at hr
  obtain ⟨key, _, hr⟩ := except_bind_eq_ok.mp hr
  simp only [refuse_bind_eq_ok] at hr
  obtain ⟨_, _, hr⟩ := hr
  cases hget : g.promptLeases.get? key with
  | some existing =>
    rw [hget] at hr
    cases hr
    exact h
  | none =>
    rw [hget] at hr
    dsimp only at hr
    split at hr
    · cases hr
      exact stateOf_append _ h rfl
    rw [refuse_bind_eq_ok] at hr
    obtain ⟨_, hr⟩ := hr
    cases hr
    exact stateOf_append _ h rfl

theorem stateOf_after {r : Except GateError (Nat × Gate)}
    (hr : ∀ j t, r = .ok (j, t) → t.stateOf i = some .active) (h : g.stateOf i = some .active) :
    (g.after r).stateOf i = some .active := by
  cases r with
  | error e => exact h
  | ok a => exact hr a.1 a.2 rfl

theorem stateOf_acquireAuth {j : Nat} {t : Gate} (hr : g.acquireAuthMutation = .ok (j, t))
    (h : g.stateOf i = some .active) : t.stateOf i = some .active := by
  unfold acquireAuthMutation at hr
  simp only [refuse_bind_eq_ok] at hr
  obtain ⟨_, _, hr⟩ := hr
  cases hr
  exact stateOf_append _ h rfl

theorem stateOf_acquireConfig {j : Nat} {t : Gate} (hr : g.acquireConfigMutation = .ok (j, t))
    (h : g.stateOf i = some .active) : t.stateOf i = some .active := by
  unfold acquireConfigMutation at hr
  simp only [refuse_bind_eq_ok] at hr
  obtain ⟨_, _, hr⟩ := hr
  cases hr
  exact stateOf_append _ h rfl

section

variable {s t : GateThreads} (h : Consistent s.gate)

include h

theorem Consistent.stays {c : Section}
    (hc : c.names i = false) (hn : s.next c = some t) (hi : s.gate.stateOf i = some .active) :
    t.gate.stateOf i = some .active := by
  cases c with
  | reserve id =>
    cases hn
    exact stateOf_after (fun j t hr => stateOf_reservePrompt hr hi) hi
  | acquireAuth =>
    cases hn
    exact stateOf_after (fun j t hr => stateOf_acquireAuth hr hi) hi
  | acquireConfig =>
    cases hn
    exact stateOf_after (fun j t hr => stateOf_acquireConfig hr hi) hi
  | release j =>
    have hne : i ≠ j := fun he => (of_decide_eq_false hc) he.symm
    obtain ⟨_, hn⟩ := Option.ite_none_right_eq_some.mp hn
    cases hn
    exact stateOf_finishLocked hne .released hi
  | cancelLook j =>
    obtain ⟨_, hn⟩ := Option.ite_none_right_eq_some.mp hn
    cases hn
    split
    · exact hi
    · exact hi
  | cancelFinish j =>
    have hne : i ≠ j := fun he => (of_decide_eq_false hc) he.symm
    obtain ⟨_, hn⟩ := Option.ite_none_right_eq_some.mp hn
    cases hn
    exact stateOf_finishLocked hne .cancelled hi
  | look j expired =>
    have hne : i ≠ j := fun he => (of_decide_eq_false hc) he.symm
    obtain ⟨_, hn⟩ := Option.ite_none_right_eq_some.mp hn
    cases hn
    show (s.gate.look j expired).2.stateOf i = some .active
    unfold Gate.look
    split
    case h_6 =>
      split
      · exact stateOf_finishLocked hne .timedOut hi
      · exact hi
    all_goals exact hi
  | close =>
    cases hn
    show s.gate.close.stateOf i = some .active
    unfold Gate.close
    split
    · exact hi
    · rw [stateOf_closeFrom s.gate.queue _ (h.not_mem_queue hi)]
      exact hi

theorem Consistent.exec_stays {between : List Section}
    (hb : ∀ c ∈ between, c.names i = false) (hn : Runs.exec GateThreads.next s between = some t)
    (hi : s.gate.stateOf i = some .active) : t.gate.stateOf i = some .active := by
  induction between generalizing s with
  | nil =>
    cases hn
    exact hi
  | cons c rest ih =>
    obtain ⟨r, hr, hrest⟩ := (Runs.exec_cons_eq_some_iff s t c rest).mp hn
    have hri := h.stays (hb c List.mem_cons_self) hr hi
    exact ih (h.next hr).1 (fun d hd => hb d (List.mem_cons_of_mem c hd)) hrest hri

/-- The lease is active before the second section exactly if it was promoted on the way. -/
theorem Consistent.active_iff_promotes {between : List Section}
    (hb : ∀ c ∈ between, c.names i = false)
    (hn : Runs.exec GateThreads.next s between = some t) (hi : s.gate.stateOf i ≠ some .active) :
    t.gate.stateOf i = some .active ↔ promotes i s between = true := by
  induction between generalizing s with
  | nil =>
    cases hn
    simp [promotes, hi]
  | cons c rest ih =>
    obtain ⟨r, hr, hrest⟩ := (Runs.exec_cons_eq_some_iff s t c rest).mp hn
    have hb' : ∀ d ∈ rest, d.names i = false := fun d hd => hb d (List.mem_cons_of_mem c hd)
    have hconsistent := (h.next hr).1
    unfold promotes
    rw [hr]
    by_cases hri : r.gate.stateOf i = some .active
    · simp only [hri, decide_true, Bool.true_or, iff_true]
      exact hconsistent.exec_stays hb' hrest hri
    · simp only [hri, decide_false, Bool.false_or]
      exact ih hconsistent hb' hrest hri

end

end

section

variable {g : Gate} {i : Nat}

theorem promoteLocked_full (h : g.closed = false → g.activePrompts = g.limits.maxActiveTurns) :
    g.promoteLocked.leases = g.leases ∧ g.promoteLocked.activePrompts = g.activePrompts := by
  unfold promoteLocked
  split
  · exact ⟨rfl, rfl⟩
  rename_i hopen
  simp only [Bool.or_eq_true, not_or, Bool.not_eq_true] at hopen
  have hfull := h hopen.1.1
  cases g.queue with
  | nil => exact ⟨rfl, rfl⟩
  | cons j rest =>
    unfold promoteFrom
    rw [if_neg (by omega)]
    exact ⟨rfl, rfl⟩

/-- A lease that waits leaves the queue and nothing else changes. -/
theorem Consistent.spares_queued (h : Consistent g) {lease : Lease}
    (hget : g.leases[i]? = some lease) (hstate : lease.state = .queued) :
    Spares i g (g.finishLocked i .cancelled) := by
  have hlive : lease.isLive = true := by simp [Lease.isLive, hstate]
  have hqueued : g.stateOf i = some .queued := by
    unfold stateOf
    rw [hget, Option.map_some, hstate]
  have hself : (g.setState i .cancelled).stateOf i = some .cancelled := stateOf_setState_self hget
  have hothers : ∀ j, (g.setState i .cancelled).stateOf j = some .active →
      g.stateOf j = some .active := by
    intro j hj
    by_cases he : j = i
    · rw [he, hself] at hj
      cases hj
    · rw [stateOf_setState_ne he] at hj
      exact hj
  have hset : (g.setState i .cancelled).activePrompts = g.activePrompts := by
    rw [setState_eq hget]
  unfold Gate.finishLocked
  rw [hget]
  dsimp only
  rw [if_pos hlive]
  cases hkind : lease.kind with
  | auth => exact ⟨.inr ⟨hqueued, hself⟩, hset, hothers⟩
  | config => exact ⟨.inr ⟨hqueued, hself⟩, hset, hothers⟩
  | prompt =>
    have hidle : ¬ lease.state = .active := by
      rw [hstate]
      decide
    have hdropped : (g.dropPrompt i lease .cancelled).activePrompts = g.activePrompts := by
      unfold Gate.dropPrompt
      exact if_neg hidle
    have hlimits : (g.dropPrompt i lease .cancelled).limits = g.limits ∧
        (g.dropPrompt i lease .cancelled).closed = g.closed := by
      unfold Gate.dropPrompt
      rw [setState_eq hget]
      exact ⟨rfl, rfl⟩
    -- the lease itself waits, so every slot is taken
    have hfull : g.closed = false → g.activePrompts = g.limits.maxActiveTurns := by
      intro hopen
      apply h.full hopen
      exact List.ne_nil_of_mem ((h.queued i).mpr ⟨lease, hget, hkind, hstate⟩)
    obtain ⟨hleases, hactive⟩ := promoteLocked_full (g := g.dropPrompt i lease .cancelled)
      fun hopen => by
        rw [hdropped, hlimits.1]
        exact hfull (hlimits.2 ▸ hopen)
    have hsame : ∀ j, (g.dropPrompt i lease .cancelled).promoteLocked.stateOf j =
        (g.setState i .cancelled).stateOf j := fun j => stateOf_congr hleases j
    refine ⟨.inr ⟨hqueued, (hsame i).trans hself⟩, hactive.trans hdropped, fun j hj => ?_⟩
    rw [hsame] at hj
    exact hothers j hj

/-- The second section spares the slots exactly if the lease is not active by then. -/
theorem Consistent.spares_iff (h : Consistent g) :
    Spares i g (g.finishLocked i .cancelled) ↔ g.stateOf i ≠ some .active := by
  cases hget : g.leases[i]? with
  | none =>
    have hnone : g.stateOf i = none := by
      unfold stateOf
      rw [hget]
      rfl
    have hsame : g.finishLocked i .cancelled = g := by
      unfold Gate.finishLocked
      rw [hget]
    rw [hsame, hnone]
    exact iff_of_true ⟨.inl rfl, rfl, fun _ hj => hj⟩ (by simp)
  | some lease =>
    have hstateOf : g.stateOf i = some lease.state := by
      unfold stateOf
      rw [hget]
      rfl
    cases hstate : lease.state with
    | queued =>
      rw [hstateOf, hstate]
      exact iff_of_true (h.spares_queued hget hstate) (by decide)
    | active =>
      rw [hstateOf, hstate]
      refine iff_of_false (fun hspares => ?_) fun hne => hne rfl
      rcases hspares.finished with hsame | hqueued
      · have hended := stateOf_finishLocked_self hget
          (by simp [Lease.isLive, hstate]) Ending.cancelled
        rw [hsame, hstateOf, hstate] at hended
        cases hended
      · rw [hstateOf, hstate] at hqueued
        cases hqueued.1
    | _ =>
      have hsame : g.finishLocked i .cancelled = g := by
        unfold Gate.finishLocked
        rw [hget]
        dsimp only
        rw [if_neg (by simp [Lease.isLive, hstate])]
      rw [hsame, hstateOf, hstate]
      exact iff_of_true ⟨.inl rfl, rfl, fun _ hj => hj⟩ (by decide)

end

/-- A cancel that sees its lease active returns at once. Any other spares the slots exactly
if no call between its two sections hands the lease a slot. -/
theorem cancel_spares_iff (limits : GateLimits) (before between : List Section) (i : Nat)
    (s r : GateThreads) (hs : Runs.exec GateThreads.next (Gate.start limits) before = some s)
    (hr : s.next (.cancelLook i) = some r) (hb : ∀ c ∈ between, c.names i = false) :
    (s.gate.stateOf i = some .active → r = s) ∧
      (s.gate.stateOf i ≠ some .active → ∀ t u, Runs.exec GateThreads.next r between = some t →
        t.next (.cancelFinish i) = some u →
          (Spares i t.gate u.gate ↔ promotes i r between = false)) := by
  have hconsistent : Consistent s.gate := (reachable_orderly limits before s hs).1
  obtain ⟨_, hr⟩ := Option.ite_none_right_eq_some.mp hr
  refine ⟨fun hactive => ?_, fun hidle t u ht hu => ?_⟩
  · rw [if_pos hactive] at hr
    cases hr
    rfl
  · rw [if_neg hidle] at hr
    cases hr
    have hreached : Consistent t.gate :=
      Runs.invariant (I := fun s => Consistent s.gate) (fun _ _ _ hi hn => (hi.next hn).1)
        hconsistent ht
    obtain ⟨_, hu⟩ := Option.ite_none_right_eq_some.mp hu
    cases hu
    have hwaiting : Consistent (GateThreads.mk s.gate (i :: s.cancelling)).gate := hconsistent
    have hactive := hwaiting.active_iff_promotes hb ht hidle
    rw [hreached.spares_iff, ne_eq, hactive, Bool.not_eq_true]

def threePrompts : List Section := [.reserve "a", .reserve "b", .reserve "c"]

/-- The second prompt is cancelled while the third one times out. -/
theorem cancel_spares_iff_waiting :
    (Runs.exec GateThreads.next (Gate.start ⟨1, 8, by decide⟩)
      (threePrompts ++ [.cancelLook 1, .look 2 true, .cancelFinish 1])).isSome = true ∧
      ∀ s r, Runs.exec GateThreads.next (Gate.start ⟨1, 8, by decide⟩) threePrompts = some s →
        s.next (.cancelLook 1) = some r →
          (s.gate.stateOf 1 = some .active → r = s) ∧
            (s.gate.stateOf 1 ≠ some .active → ∀ t u,
              Runs.exec GateThreads.next r [.look 2 true] = some t →
                t.next (.cancelFinish 1) = some u →
                  (Spares 1 t.gate u.gate ↔ promotes 1 r [.look 2 true] = false)) :=
  ⟨by decide +kernel, fun s r hs hr =>
    cancel_spares_iff ⟨1, 8, by decide⟩ threePrompts [.look 2 true] 1 s r hs hr (by decide)⟩

/-- The first prompt is released between the two sections: the cancel ends the second one
while it holds the slot, which goes to the third. -/
theorem cancel_frees_slot : ∃ t u,
    Runs.exec GateThreads.next (Gate.start ⟨1, 8, by decide⟩)
      (threePrompts ++ [.cancelLook 1, .release 0]) = some t ∧
      t.next (.cancelFinish 1) = some u ∧
      t.gate.leases.map Lease.state = [.released, .active, .queued] ∧
      u.gate.leases.map Lease.state = [.released, .cancelled, .active] ∧
      ¬ Spares 1 t.gate u.gate := by
  have hrun : ((Runs.exec GateThreads.next (Gate.start ⟨1, 8, by decide⟩)
      (threePrompts ++ [.cancelLook 1, .release 0])).any fun t =>
        t.gate.leases.map Lease.state = [.released, .active, .queued] &&
        (t.next (.cancelFinish 1)).any fun u =>
          u.gate.leases.map Lease.state = [.released, .cancelled, .active]) = true := by
    decide +kernel
  obtain ⟨t, ht, hrun⟩ := (Option.any_eq_true _ _).mp hrun
  obtain ⟨hbefore, hrun⟩ := (Bool.and_eq_true _ _).mp hrun
  obtain ⟨u, hu, hafter⟩ := (Option.any_eq_true _ _).mp hrun
  have hbefore := of_decide_eq_true hbefore
  have hafter := of_decide_eq_true hafter
  refine ⟨t, u, ht, hu, hbefore, hafter, fun hspares => ?_⟩
  have hpromoted : u.gate.stateOf 2 = some .active := by
    unfold stateOf
    rw [← List.getElem?_map, hafter]
    rfl
  have hheld := hspares.promoted 2 hpromoted
  unfold stateOf at hheld
  rw [← List.getElem?_map, hbefore] at hheld
  cases hheld

end CodexBridge.Runtime.Gate
