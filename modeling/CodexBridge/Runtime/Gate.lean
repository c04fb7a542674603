import CodexBridge.Library.Dict
import CodexBridge.Library.Effect
import CodexBridge.Library.Runs
import CodexBridge.Library.Json

/-! # The runtime gate

A lease is one turn's claim on the Codex runtime. The gate keeps a counter, a queue
and a map of owners beside the leases; each call is one or two sections under its
condition, and a lease handle may be used at any time, also after the gate closed.
-/

namespace CodexBridge.Runtime

open Effect

/-! ## Leases -/

inductive LeaseState where
  | active | queued | released | cancelled | timedOut | closed
  deriving DecidableEq

inductive LeaseKind where
  | prompt | auth | config
  deriving DecidableEq

/-- The terminal states `_finish_locked` accepts. -/
inductive Ending where
  | released | cancelled | timedOut

def Ending.state : Ending → LeaseState
  | .released => .released
  | .cancelled => .cancelled
  | .timedOut => .timedOut

structure Lease where
  kind : LeaseKind
  state : LeaseState
  ownerKey : Option String

def Lease.isLive (lease : Lease) : Bool := lease.state = .active || lease.state = .queued

def Lease.isActivePrompt (lease : Lease) : Bool :=
  lease.kind = .prompt && lease.state = .active

inductive GateError where
  /-- `ValueError`. -/
  | value (message : String)
  | closed
  | queueFull
  | mutationConflict
  | leaseCancelled
  | leaseTimeout

/-- The part of `ResourceLimits` the gate reads. -/
structure GateLimits where
  maxActiveTurns : Nat
  maxQueuedPrompts : Nat
  positive : 0 < maxActiveTurns

/-- A lease is known by its position among the leases made so far. -/
structure Gate where
  limits : GateLimits
  leases : List Lease
  activePrompts : Int
  promptLeases : Dict String Nat
  queue : List Nat
  authLease : Option Nat
  authMutationRevision : Nat
  configLease : Option Nat
  closed : Bool

def Gate.initial (limits : GateLimits) : Gate := ⟨limits, [], 0, .empty, [], none, 0, none, false⟩

namespace Gate

def setState (g : Gate) (i : Nat) (state : LeaseState) : Gate :=
  match g.leases[i]? with
  | some lease => { g with leases := g.leases.set i { lease with state := state } }
  | none => g

def stateOf (g : Gate) (i : Nat) : Option LeaseState := g.leases[i]?.map Lease.state

/-- The loop of `_promote_locked` over the queue. -/
def promoteFrom : List Nat → Gate → Gate
  | [], g => { g with queue := [] }
  | i :: rest, g =>
    if g.activePrompts < g.limits.maxActiveTurns then
      if g.stateOf i = some .queued then
        promoteFrom rest { g.setState i .active with activePrompts := g.activePrompts + 1 }
      else promoteFrom rest g
    else { g with queue := i :: rest }

def promoteLocked (g : Gate) : Gate :=
  if g.closed || g.authLease.isSome || g.configLease.isSome then g else promoteFrom g.queue g

/-- What `_finish_locked` does for a prompt before it promotes. -/
def dropPrompt (g : Gate) (i : Nat) (lease : Lease) (ending : Ending) : Gate :=
  { g.setState i ending.state with
    promptLeases := match lease.ownerKey with
      | some key => g.promptLeases.erase key
      | none => g.promptLeases
    activePrompts := if lease.state = .active then g.activePrompts - 1 else g.activePrompts
    queue := if lease.state = .active then g.queue else g.queue.erase i }

def finishLocked (g : Gate) (i : Nat) (ending : Ending) : Gate :=
  match g.leases[i]? with
  | none => g
  | some lease =>
    if lease.isLive then
      match lease.kind with
      | .auth =>
        { g.setState i ending.state with
          authLease := if g.authLease = some i then none else g.authLease }
      | .config =>
        { g.setState i ending.state with
          configLease := if g.configLease = some i then none else g.configLease }
      | .prompt => (g.dropPrompt i lease ending).promoteLocked
    else g

def ownerKey (value : String) : Except GateError String := do
  refuse (!PyText.isTrimmed value)
    (.value "client request id must be a nonblank trimmed string")
  refuse (value.utf8ByteSize > 256) (.value "client request id exceeds its limit")
  return value

def reservePrompt (g : Gate) (clientRequestId : String) : Except GateError (Nat × Gate) := do
  let key ← ownerKey clientRequestId
  refuse g.closed .closed
  refuse (g.authLease.isSome || g.configLease.isSome) .mutationConflict
  match g.promptLeases.get? key with
  | some existing => return (existing, g)
  | none =>
    let i := g.leases.length
    if g.activePrompts < g.limits.maxActiveTurns then
      return (i, { g with
        leases := g.leases ++ [⟨.prompt, .active, some key⟩]
        activePrompts := g.activePrompts + 1
        promptLeases := g.promptLeases.set key i })
    else
      refuse (g.queue.length ≥ g.limits.maxQueuedPrompts) .queueFull
      return (i, { g with
        leases := g.leases ++ [⟨.prompt, .queued, some key⟩]
        promptLeases := g.promptLeases.set key i
        queue := g.queue ++ [i] })

def isBusy (g : Gate) : Bool :=
  g.authLease.isSome || g.configLease.isSome || 0 < g.activePrompts || !g.queue.isEmpty

def acquireAuthMutation (g : Gate) : Except GateError (Nat × Gate) := do
  refuse g.closed .closed
  refuse g.isBusy .mutationConflict
  return (g.leases.length, { g with
    leases := g.leases ++ [⟨.auth, .active, none⟩]
    authLease := some g.leases.length
    authMutationRevision := g.authMutationRevision + 1 })

def acquireConfigMutation (g : Gate) : Except GateError (Nat × Gate) := do
  refuse g.closed .closed
  refuse g.isBusy .mutationConflict
  return (g.leases.length, { g with
    leases := g.leases ++ [⟨.config, .active, none⟩]
    configLease := some g.leases.length })

/-- The loop of `close` over the queue. -/
def closeFrom : List Nat → Gate → Gate
  | [], g => { g with queue := [] }
  | i :: rest, g =>
    closeFrom rest { g.setState i .closed with
      promptLeases := match (g.leases[i]?.bind Lease.ownerKey) with
        | some key => g.promptLeases.erase key
        | none => g.promptLeases }

def close (g : Gate) : Gate :=
  if g.closed then g else closeFrom g.queue { g with closed := true }

/-- One look of `wait_until_active` at its lease: the wait returns, raises or goes on. -/
def look (g : Gate) (i : Nat) (expired : Bool) : Except GateError Bool × Gate :=
  match g.stateOf i with
  | some .active => (.ok true, g)
  | some .cancelled => (.error .leaseCancelled, g)
  | some .timedOut => (.error .leaseTimeout, g)
  | some .closed => (.error .closed, g)
  | some .released => (.error .leaseCancelled, g)
  | some .queued =>
    if expired then (.error .leaseTimeout, g.finishLocked i .timedOut) else (.ok false, g)
  | none => (.ok false, g)

/-- A section under the condition. `cancel` has two; what it saw in the first is
remembered by its thread only. -/
inductive Section where
  | reserve (clientRequestId : String)
  | acquireAuth
  | acquireConfig
  | release (lease : Nat)
  | cancelLook (lease : Nat)
  | cancelFinish (lease : Nat)
  | look (lease : Nat) (expired : Bool)
  | close

end Gate

/-- The gate and the threads between the two sections of a `cancel`. -/
structure GateThreads where
  gate : Gate
  cancelling : List Nat

def Gate.start (limits : GateLimits) : GateThreads := ⟨.initial limits, []⟩

def Gate.after (g : Gate) : Except GateError (Nat × Gate) → Gate
  | .ok (_, next) => next
  | .error _ => g

def GateThreads.next (s : GateThreads) : Gate.Section → Option GateThreads
  | .reserve id => some { s with gate := s.gate.after (s.gate.reservePrompt id) }
  | .acquireAuth => some { s with gate := s.gate.after s.gate.acquireAuthMutation }
  | .acquireConfig => some { s with gate := s.gate.after s.gate.acquireConfigMutation }
  | .release i =>
    if i < s.gate.leases.length then some { s with gate := s.gate.finishLocked i .released }
    else none
  | .cancelLook i =>
    if i < s.gate.leases.length then
      some (if s.gate.stateOf i = some .active then s
        else { s with cancelling := i :: s.cancelling })
    else none
  | .cancelFinish i =>
    if i ∈ s.cancelling then
      some ⟨s.gate.finishLocked i .cancelled, s.cancelling.erase i⟩
    else none
  | .look i expired =>
    if i < s.gate.leases.length then some { s with gate := (s.gate.look i expired).2 } else none
  | .close => some { s with gate := s.gate.close }

namespace Gate

def Is (leases : List Lease) (i : Nat) (kind : LeaseKind) (state : LeaseState) : Prop :=
  ∃ lease, leases[i]? = some lease ∧ lease.kind = kind ∧ lease.state = state

def Owns (leases : List Lease) (key : String) (i : Nat) : Prop :=
  ∃ lease, leases[i]? = some lease ∧ lease.kind = .prompt ∧ lease.isLive = true ∧
    lease.ownerKey = some key

def activeCount (leases : List Lease) : Nat := leases.countP Lease.isActivePrompt

structure Counted (g : Gate) : Prop where
  counter : g.activePrompts = activeCount g.leases
  bounded : g.activePrompts ≤ g.limits.maxActiveTurns
  queued : ∀ i, i ∈ g.queue ↔ Is g.leases i .prompt .queued
  ordered : g.queue.Pairwise (· < ·)
  room : g.queue.length ≤ g.limits.maxQueuedPrompts
  keyed : ∀ (i : Nat) (lease : Lease), g.leases[i]? = some lease → lease.kind = .prompt →
    ∃ key, lease.ownerKey = some key
  owners : ∀ key i, g.promptLeases.get? key = some i ↔ Owns g.leases key i
  auth : ∀ i, g.authLease = some i ↔ Is g.leases i .auth .active
  config : ∀ i, g.configLease = some i ↔ Is g.leases i .config .active

def HasPrompt (g : Gate) : Prop := ∃ key i, Owns g.leases key i

structure Consistent (g : Gate) : Prop extends Counted g where
  authAlone : g.authLease ≠ none → g.configLease = none ∧ ¬ g.HasPrompt
  configAlone : g.configLease ≠ none → g.authLease = none ∧ ¬ g.HasPrompt
  full : g.closed = false → g.queue ≠ [] → g.activePrompts = g.limits.maxActiveTurns

def withState (leases : List Lease) (i : Nat) (lease : Lease) (state : LeaseState) : List Lease :=
  leases.set i { lease with state := state }

section

variable {leases : List Lease} {i : Nat} {lease : Lease}

theorem setState_eq {g : Gate} (h : g.leases[i]? = some lease) (state : LeaseState) :
    g.setState i state = { g with leases := withState g.leases i lease state } := by
  unfold setState
  rw [h]
  rfl

section

variable (h : leases[i]? = some lease)

include h

theorem getElem?_withState (state : LeaseState) (j : Nat) :
    (withState leases i lease state)[j]? =
      if j = i then some { lease with state := state } else leases[j]? := by
  unfold withState
  rw [List.getElem?_set]
  have hlt : i < leases.length := (List.getElem?_eq_some_iff.mp h).choose
  by_cases hj : i = j
  · rw [if_pos hj, if_pos hj.symm, if_pos hlt]
  · rw [if_neg hj, if_neg fun he => hj he.symm]

theorem activeCount_withState (state : LeaseState) :
    activeCount (withState leases i lease state) + (if lease.isActivePrompt then 1 else 0) =
      activeCount leases + if lease.kind = .prompt ∧ state = .active then 1 else 0 := by
  obtain ⟨hlt, hget⟩ := List.getElem?_eq_some_iff.mp h
  have hpos : lease.isActivePrompt = true → 0 < leases.countP Lease.isActivePrompt := by
    intro hactive
    exact List.countP_pos_iff.mpr ⟨lease, List.mem_of_getElem? h, hactive⟩
  have hnew : Lease.isActivePrompt { lease with state := state } = true ↔
      lease.kind = .prompt ∧ state = .active := by
    simp [Lease.isActivePrompt]
  unfold activeCount withState
  rw [List.countP_set hlt, hget]
  simp only [hnew]
  split
  · have hp := hpos (by assumption)
    omega
  · omega

theorem is_withState (state : LeaseState) (j : Nat)
    (kind : LeaseKind) (s : LeaseState) : Is (withState leases i lease state) j kind s ↔
      if j = i then lease.kind = kind ∧ state = s else Is leases j kind s := by
  unfold Is
  rw [getElem?_withState h]
  split
  · simp
  · exact Iff.rfl

theorem is_withState_of_kind (state : LeaseState) (j : Nat)
    {kind : LeaseKind} (hk : lease.kind ≠ kind) (s : LeaseState) :
    Is (withState leases i lease state) j kind s ↔ Is leases j kind s := by
  rw [is_withState h]
  split
  · rename_i he
    constructor
    · rintro ⟨hkind, _⟩
      exact absurd hkind hk
    · rintro ⟨other, hother, hkind, _⟩
      rw [he, h] at hother
      cases hother
      exact absurd hkind hk
  · exact Iff.rfl

theorem owns_withState (state : LeaseState) (j : Nat)
    (key : String) : Owns (withState leases i lease state) key j ↔
      if j = i then lease.kind = .prompt ∧ lease.ownerKey = some key ∧
        (state = .active ∨ state = .queued) else Owns leases key j := by
  unfold Owns
  rw [getElem?_withState h]
  split
  · simp [Lease.isLive]
    tauto
  · exact Iff.rfl

theorem owns_withState_of_live {state : LeaseState}
    (hlive : lease.isLive = true) (hs : state = .active ∨ state = .queued) (j : Nat)
    (key : String) : Owns (withState leases i lease state) key j ↔ Owns leases key j := by
  rw [owns_withState h]
  split
  · rename_i he
    constructor
    · rintro ⟨hkind, hkey, _⟩
      exact ⟨lease, he ▸ h, hkind, hlive, hkey⟩
    · rintro ⟨other, hother, hkind, _, hkey⟩
      rw [he, h] at hother
      cases hother
      exact ⟨hkind, hkey, hs⟩
  · exact Iff.rfl

theorem keyed_withState (state : LeaseState)
    (hk : ∀ (j : Nat) (other : Lease), leases[j]? = some other → other.kind = .prompt →
      ∃ key, other.ownerKey = some key) (j : Nat) (other : Lease)
    (hj : (withState leases i lease state)[j]? = some other) (hp : other.kind = .prompt) :
    ∃ key, other.ownerKey = some key := by
  rw [getElem?_withState h] at hj
  split at hj
  · cases hj
    exact hk i lease h hp
  · exact hk j other hj hp

end

end

section

variable {g : Gate} {i : Nat} {rest : List Nat}

/-- The head of the queue gets a free slot. -/
theorem Counted.promote (h : Counted { g with queue := i :: rest })
    (hfree : g.activePrompts < g.limits.maxActiveTurns) :
    Counted { g.setState i .active with activePrompts := g.activePrompts + 1, queue := rest } := by
  obtain ⟨lease, hget, hkind, hstate⟩ := (h.queued i).mp List.mem_cons_self
  have hget : g.leases[i]? = some lease := hget
  have hlive : lease.isLive = true := by simp [Lease.isLive, hstate]
  have hcount := activeCount_withState hget .active
  have hidle : ¬ lease.isActivePrompt = true := by simp [Lease.isActivePrompt, hstate]
  rw [if_neg hidle, if_pos ⟨hkind, rfl⟩] at hcount
  have hcounter : g.activePrompts = activeCount g.leases := h.counter
  have hroom : (i :: rest).length ≤ g.limits.maxQueuedPrompts := h.room
  rw [List.length_cons] at hroom
  have hother : ∀ kind, kind ≠ .prompt → ∀ j, Is g.leases j kind .active ↔
      Is (withState g.leases i lease .active) j kind .active := fun kind hne j =>
    (is_withState_of_kind hget .active j (fun he => hne (he.symm.trans hkind)) .active).symm
  rw [setState_eq hget]
  refine ⟨?_, ?_, fun j => ?_, (List.pairwise_cons.mp h.ordered).2, ?_,
    keyed_withState hget .active h.keyed, fun key j => ?_, fun j => ?_, fun j => ?_⟩
  · change g.activePrompts + 1 = (activeCount (withState g.leases i lease .active) : Int)
    omega
  · change g.activePrompts + 1 ≤ g.limits.maxActiveTurns
    omega
  · rw [is_withState hget]
    by_cases he : j = i
    · rw [if_pos he]
      constructor
      · intro hm
        exact absurd ((List.pairwise_cons.mp h.ordered).1 j hm) (by omega)
      · rintro ⟨_, hn⟩
        cases hn
    · rw [if_neg he]
      have hm : j ∈ i :: rest ↔ j ∈ rest := by simp [he]
      exact hm.symm.trans (h.queued j)
  · change rest.length ≤ g.limits.maxQueuedPrompts
    omega
  · rw [owns_withState_of_live hget hlive (.inl rfl)]
    exact h.owners key j
  · exact (h.auth j).trans (hother .auth (by decide) j)
  · exact (h.config j).trans (hother .config (by decide) j)

/-- What a promotion of the queue `q` does: a prefix of it becomes active. -/
structure Promoted (q : List Nat) (g t : Gate) : Prop where
  limits : t.limits = g.limits
  closed : t.closed = g.closed
  authLease : t.authLease = g.authLease
  configLease : t.configLease = g.configLease
  promptLeases : t.promptLeases = g.promptLeases
  split : ∃ promoted, q = promoted ++ t.queue ∧
    ∀ j, j ∉ promoted → t.leases[j]? = g.leases[j]?
  full : t.queue ≠ [] → t.activePrompts = t.limits.maxActiveTurns

theorem promoteFrom_spec (q : List Nat) (g : Gate) (h : Counted { g with queue := q }) :
    Counted (promoteFrom q g) ∧ Promoted q g (promoteFrom q g) := by
  induction q generalizing g with
  | nil =>
    refine ⟨h, rfl, rfl, rfl, rfl, rfl, ⟨[], rfl, fun _ _ => rfl⟩, fun hne => ?_⟩
    exact absurd rfl hne
  | cons i rest ih =>
    unfold promoteFrom
    split
    · rename_i hfree
      obtain ⟨lease, hget, _, hstate⟩ := (h.queued i).mp List.mem_cons_self
      have hget : g.leases[i]? = some lease := hget
      have hqueued : g.stateOf i = some .queued := by
        unfold stateOf
        rw [hget, Option.map_some, hstate]
      rw [if_pos hqueued]
      obtain ⟨hcounted, hpromoted⟩ := ih
        { g.setState i .active with activePrompts := g.activePrompts + 1 } (h.promote hfree)
      refine ⟨hcounted, ?_⟩
      rw [setState_eq hget] at hpromoted ⊢
      obtain ⟨promoted, hsplit, hsame⟩ := hpromoted.split
      refine ⟨hpromoted.limits, hpromoted.closed, hpromoted.authLease, hpromoted.configLease,
        hpromoted.promptLeases, ⟨i :: promoted, ?_, fun j hj => ?_⟩, hpromoted.full⟩
      · rw [List.cons_append, ← hsplit]
      obtain ⟨hne, hj⟩ := not_or.mp (fun hm => hj (List.mem_cons.mpr hm))
      rw [hsame j hj]
      change (withState g.leases i lease .active)[j]? = g.leases[j]?
      rw [getElem?_withState hget, if_neg hne]
    · rename_i hfull
      refine ⟨h, rfl, rfl, rfl, rfl, rfl, ⟨[], rfl, fun _ _ => rfl⟩, fun _ => ?_⟩
      have hbounded : g.activePrompts ≤ g.limits.maxActiveTurns := h.bounded
      change g.activePrompts = g.limits.maxActiveTurns
      omega

end

section

variable {g : Gate} {i : Nat} {lease : Lease} {q : List Nat}

theorem Counted.retire (h : Counted { g with queue := q }) (hget : g.leases[i]? = some lease)
    (hkind : lease.kind = .prompt) (hlive : lease.isLive = true) {key : String}
    (hkey : lease.ownerKey = some key) (state : LeaseState) (ha : state ≠ .active)
    (hq : state ≠ .queued) :
    Counted { g with
      leases := withState g.leases i lease state
      promptLeases := g.promptLeases.erase key
      activePrompts := if lease.state = .active then g.activePrompts - 1 else g.activePrompts
      queue := q.erase i } := by
  have hcount := activeCount_withState hget state
  rw [if_neg (fun hs => ha hs.2 : ¬ (lease.kind = .prompt ∧ state = .active))] at hcount
  have hcounter : g.activePrompts = activeCount g.leases := h.counter
  have hbounded : g.activePrompts ≤ g.limits.maxActiveTurns := h.bounded
  have hnodup : q.Nodup := h.ordered.imp fun hlt => Nat.ne_of_lt hlt
  have hown : Owns g.leases key i := ⟨lease, hget, hkind, hlive, hkey⟩
  have hother : ∀ kind, kind ≠ .prompt → ∀ j, Is g.leases j kind .active ↔
      Is (withState g.leases i lease state) j kind .active := fun kind hne j =>
    (is_withState_of_kind hget state j (fun he => hne (he.symm.trans hkind)) .active).symm
  refine ⟨?_, ?_, fun j => ?_, h.ordered.sublist (List.erase_sublist), ?_,
    keyed_withState hget state h.keyed, fun other j => ?_, fun j => ?_, fun j => ?_⟩
  · change (if lease.state = .active then g.activePrompts - 1 else g.activePrompts) =
      (activeCount (withState g.leases i lease state) : Int)
    by_cases hs : lease.state = .active
    · have hactive : lease.isActivePrompt = true := by simp [Lease.isActivePrompt, hkind, hs]
      rw [if_pos hactive] at hcount
      rw [if_pos hs]
      omega
    · have hidle : ¬ lease.isActivePrompt = true := by simp [Lease.isActivePrompt, hs]
      rw [if_neg hidle] at hcount
      rw [if_neg hs]
      omega
  · change (if lease.state = .active then g.activePrompts - 1 else g.activePrompts) ≤
      (g.limits.maxActiveTurns : Int)
    split
    · omega
    · omega
  · change j ∈ q.erase i ↔ _
    rw [is_withState hget, hnodup.mem_erase_iff]
    by_cases he : j = i
    · rw [if_pos he]
      constructor
      · intro hm
        exact absurd he hm.1
      · intro hm
        exact absurd hm.2 hq
    · rw [if_neg he]
      have hj : j ∈ q ↔ Is g.leases j .prompt .queued := h.queued j
      rw [hj]
      exact ⟨And.right, fun hm => ⟨he, hm⟩⟩
  · have hroom : q.length ≤ g.limits.maxQueuedPrompts := h.room
    exact Nat.le_trans (List.erase_sublist).length_le hroom
  · change (g.promptLeases.erase key).get? other = some j ↔ _
    rw [Dict.get?_erase, owns_withState hget]
    have hother : g.promptLeases.get? other = some j ↔ Owns g.leases other j := h.owners other j
    by_cases he : j = i
    · rw [if_pos he]
      constructor
      · intro hs
        split at hs
        · cases hs
        rename_i hne
        obtain ⟨same, hsame, _, _, hk⟩ := hother.mp hs
        rw [he, hget] at hsame
        cases hsame
        exact absurd (Option.some.inj (hk.symm.trans hkey)) hne
      · rintro ⟨_, _, hs | hs⟩
        · exact absurd hs ha
        · exact absurd hs hq
    · rw [if_neg he]
      by_cases hk : other = key
      · rw [if_pos hk]
        constructor
        · intro hs
          cases hs
        intro ho
        rw [hk] at ho
        have hi : g.promptLeases.get? key = some i := (h.owners key i).mpr hown
        have hj : g.promptLeases.get? key = some j := (h.owners key j).mpr ho
        rw [hi] at hj
        exact absurd (Option.some.inj hj).symm he
      · rw [if_neg hk]
        exact hother
  · exact (h.auth j).trans (hother .auth (by decide) j)
  · exact (h.config j).trans (hother .config (by decide) j)

theorem Counted.dropPrompt (h : Counted g) (hget : g.leases[i]? = some lease)
    (hkind : lease.kind = .prompt) (hlive : lease.isLive = true) (ending : Ending) :
    Counted (g.dropPrompt i lease ending) := by
  obtain ⟨key, hkey⟩ := h.keyed i lease hget hkind
  have hretired := h.retire hget hkind hlive hkey ending.state
    (by cases ending <;> decide) (by cases ending <;> decide)
  unfold Gate.dropPrompt
  rw [setState_eq hget, hkey]
  by_cases hs : lease.state = .active
  · -- an active lease is not in the queue
    have hnot : i ∉ g.queue := by
      intro hm
      obtain ⟨other, hother, _, hqueued⟩ := (h.queued i).mp hm
      rw [hget] at hother
      cases hother
      rw [hs] at hqueued
      cases hqueued
    rw [List.erase_of_not_mem hnot] at hretired
    simp only [if_pos hs] at hretired ⊢
    exact hretired
  · simp only [if_neg hs] at hretired ⊢
    exact hretired

end

/-! ## Sections keep the invariant -/

section

variable {g : Gate} {i : Nat}

/-- Of two queued prompts the later one does not become active before the earlier. -/
def Fifo (g t : Gate) : Prop :=
  ∀ i j, i < j → Is g.leases i .prompt .queued → Is g.leases j .prompt .queued →
    Is t.leases j .prompt .active → ¬ Is t.leases i .prompt .queued

theorem is_unique {leases : List Lease} {j : Nat} {kind kind' : LeaseKind}
    {s s' : LeaseState} (h : Is leases j kind s) (h' : Is leases j kind' s') :
    kind = kind' ∧ s = s' := by
  obtain ⟨lease, hget, rfl, rfl⟩ := h
  obtain ⟨other, hother, rfl, rfl⟩ := h'
  rw [hget] at hother
  cases hother
  exact ⟨rfl, rfl⟩

theorem fifo_of_no_promotion {t : Gate}
    (h : ∀ j, Is g.leases j .prompt .queued → ¬ Is t.leases j .prompt .active) : Fifo g t :=
  fun _ j _ _ hj hactive => absurd hactive (h j hj)

theorem promoteLocked_spec (h : Counted g) (hexcl : g.closed = false →
      g.authLease.isSome = true ∨ g.configLease.isSome = true → g.queue = []) :
    Counted g.promoteLocked ∧ g.promoteLocked.authLease = g.authLease ∧
      g.promoteLocked.configLease = g.configLease ∧
      g.promoteLocked.promptLeases = g.promptLeases ∧
      (g.promoteLocked.closed = false → g.promoteLocked.queue ≠ [] →
        g.promoteLocked.activePrompts = g.promoteLocked.limits.maxActiveTurns) ∧
      ∃ promoted, g.queue = promoted ++ g.promoteLocked.queue ∧
        ∀ j, j ∉ promoted → g.promoteLocked.leases[j]? = g.leases[j]? := by
  unfold promoteLocked
  split
  · rename_i hstop
    refine ⟨h, rfl, rfl, rfl, fun hopen hne => ?_, [], rfl, fun _ _ => rfl⟩
    rw [hopen, Bool.false_or, Bool.or_eq_true] at hstop
    exact absurd (hexcl hopen hstop) hne
  · obtain ⟨hcounted, hp⟩ := promoteFrom_spec g.queue g h
    exact ⟨hcounted, hp.authLease, hp.configLease, hp.promptLeases, fun _ => hp.full, hp.split⟩

/-- A prompt leaves, the next ones in the queue get its slot. -/
theorem Consistent.finishPrompt (h : Consistent g) {lease : Lease}
    (hget : g.leases[i]? = some lease)
    (hkind : lease.kind = .prompt) (hlive : lease.isLive = true) (ending : Ending) :
    Consistent (g.dropPrompt i lease ending).promoteLocked ∧
      Fifo g (g.dropPrompt i lease ending).promoteLocked := by
  obtain ⟨key, hkey⟩ := h.keyed i lease hget hkind
  have hdropped := h.toCounted.dropPrompt hget hkind hlive ending
  have heq : g.dropPrompt i lease ending = { g with
      leases := withState g.leases i lease ending.state
      promptLeases := g.promptLeases.erase key
      activePrompts := if lease.state = .active then g.activePrompts - 1 else g.activePrompts
      queue := if lease.state = .active then g.queue else g.queue.erase i } := by
    unfold Gate.dropPrompt
    rw [setState_eq hget, hkey]
  have hnone : g.authLease = none ∧ g.configLease = none := by
    have hhas : g.HasPrompt := ⟨key, i, lease, hget, hkind, hlive, hkey⟩
    refine ⟨?_, ?_⟩
    · by_contra hne
      exact (h.authAlone hne).2 hhas
    · by_contra hne
      exact (h.configAlone hne).2 hhas
  obtain ⟨hcounted, hauth, hconfig, hmap, hfull, promoted, hsplit, hsame⟩ :=
    promoteLocked_spec hdropped fun _ hm => by
      rw [heq] at hm
      rcases hm with hm | hm
      · rw [hnone.1] at hm
        cases hm
      · rw [hnone.2] at hm
        cases hm
  have hauth' : (g.dropPrompt i lease ending).promoteLocked.authLease = none := by
    rw [hauth, heq]
    exact hnone.1
  have hconfig' : (g.dropPrompt i lease ending).promoteLocked.configLease = none := by
    rw [hconfig, heq]
    exact hnone.2
  refine ⟨⟨hcounted, fun hne => absurd hauth' hne, fun hne => absurd hconfig' hne, hfull⟩, ?_⟩
  -- what is promoted stands before what stays queued
  intro a b hlt ha hb hactive hqueued
  have hqueued' := (hcounted.queued a).mpr hqueued
  have hbpromoted : b ∈ promoted := by
    by_contra hnot
    have hold : Is (withState g.leases i lease ending.state) b .prompt .active := by
      obtain ⟨other, hother, hk, hs⟩ := hactive
      rw [hsame b hnot, heq] at hother
      exact ⟨other, hother, hk, hs⟩
    rw [is_withState hget] at hold
    split at hold
    · cases ending with
      | _ => exact absurd hold.2 (by decide)
    · exact absurd (is_unique hb hold).2 (by decide)
  have hordered := hdropped.ordered
  rw [hsplit] at hordered
  have hlt' := (List.pairwise_append.mp hordered).2.2 b hbpromoted a hqueued'
  omega

theorem Consistent.finishMutation (h : Consistent g) {lease : Lease}
    (hget : g.leases[i]? = some lease) (hkind : lease.kind ≠ .prompt)
    (hlive : lease.isLive = true) (ending : Ending) :
    Consistent (g.finishLocked i ending) ∧ Fifo g (g.finishLocked i ending) := by
  have hcount := activeCount_withState hget ending.state
  have hidle : ¬ lease.isActivePrompt = true := by simp [Lease.isActivePrompt, hkind]
  rw [if_neg hidle, if_neg (fun hs => hkind hs.1 :
    ¬ (lease.kind = .prompt ∧ ending.state = .active))] at hcount
  have hactive : ending.state ≠ .active := by cases ending <;> decide
  have howns : ∀ key j, Owns (withState g.leases i lease ending.state) key j ↔
      Owns g.leases key j := by
    intro key j
    rw [owns_withState hget]
    split
    · rename_i he
      constructor
      · intro hs
        exact absurd hs.1 hkind
      · rintro ⟨other, hother, hk, _⟩
        rw [he, hget] at hother
        cases hother
        exact absurd hk hkind
    · exact Iff.rfl
  have hbase : ∀ authLease configLease,
      (∀ j, authLease = some j ↔ Is (withState g.leases i lease ending.state) j .auth .active) →
      (∀ j, configLease = some j ↔
        Is (withState g.leases i lease ending.state) j .config .active) →
      Counted { g with
        leases := withState g.leases i lease ending.state
        authLease := authLease
        configLease := configLease } := by
    intro authLease configLease hauth hconfig
    refine ⟨?_, h.bounded, fun j => ?_, h.ordered, h.room, keyed_withState hget _ h.keyed,
      fun key j => ?_, hauth, hconfig⟩
    · have hcounter := h.counter
      change g.activePrompts = (activeCount (withState g.leases i lease ending.state) : Int)
      omega
    · rw [is_withState_of_kind hget _ _ hkind]
      exact h.queued j
    · rw [howns]
      exact h.owners key j
  have hgone : ∀ kind (held : Option Nat), lease.kind = kind →
      (∀ j, held = some j ↔ Is g.leases j kind .active) → ∀ j,
      (if held = some i then none else held) = some j ↔
        Is (withState g.leases i lease ending.state) j kind .active := by
    intro kind held hk hheld j
    rw [is_withState hget]
    by_cases he : j = i
    · rw [if_pos he]
      constructor
      · intro hs
        split at hs
        · cases hs
        · rename_i hne
          exact absurd (he ▸ hs) hne
      · intro hs
        exact absurd hs.2 hactive
    · rw [if_neg he, ← hheld j]
      split
      · rename_i hs
        constructor
        · intro hn
          cases hn
        · intro hj
          rw [hs] at hj
          exact absurd (Option.some.inj hj).symm he
      · exact Iff.rfl
  have hkept : ∀ kind (held : Option Nat), lease.kind ≠ kind →
      (∀ j, held = some j ↔ Is g.leases j kind .active) → ∀ j,
      held = some j ↔ Is (withState g.leases i lease ending.state) j kind .active := by
    intro kind held hk hheld j
    rw [is_withState_of_kind hget _ _ hk]
    exact hheld j
  have hprompt : ∀ t : Gate, t.leases = withState g.leases i lease ending.state →
      (t.HasPrompt ↔ g.HasPrompt) ∧ Fifo g t := by
    intro t ht
    refine ⟨?_, fifo_of_no_promotion fun j hj hnow => ?_⟩
    · unfold HasPrompt
      simp only [ht, howns]
    · rw [ht, is_withState_of_kind hget _ _ hkind] at hnow
      exact absurd (is_unique hj hnow).2 (by decide)
  unfold finishLocked
  rw [hget]
  dsimp only
  rw [if_pos hlive, setState_eq hget]
  cases hk : lease.kind with
  | prompt => exact absurd hk hkind
  | auth =>
    have hne : lease.kind ≠ .config := by
      rw [hk]
      decide
    refine ⟨⟨hbase _ _ (hgone .auth _ hk h.auth) (hkept .config _ hne h.config), ?_, ?_, h.full⟩,
      (hprompt _ rfl).2⟩
    · intro hheld
      rw [(hprompt _ rfl).1]
      refine h.authAlone fun hn => hheld ?_
      change (if g.authLease = some i then none else g.authLease) = none
      rw [hn]
      rfl
    · intro hheld
      obtain ⟨hnone, hno⟩ := h.configAlone hheld
      rw [(hprompt _ rfl).1]
      refine ⟨?_, hno⟩
      change (if g.authLease = some i then none else g.authLease) = none
      rw [hnone]
      rfl
  | config =>
    have hne : lease.kind ≠ .auth := by
      rw [hk]
      decide
    refine ⟨⟨hbase _ _ (hkept .auth _ hne h.auth) (hgone .config _ hk h.config), ?_, ?_, h.full⟩,
      (hprompt _ rfl).2⟩
    · intro hheld
      obtain ⟨hnone, hno⟩ := h.authAlone hheld
      rw [(hprompt _ rfl).1]
      refine ⟨?_, hno⟩
      change (if g.configLease = some i then none else g.configLease) = none
      rw [hnone]
      rfl
    · intro hheld
      rw [(hprompt _ rfl).1]
      refine h.configAlone fun hn => hheld ?_
      change (if g.configLease = some i then none else g.configLease) = none
      rw [hn]
      rfl

theorem fifo_refl (g : Gate) : Fifo g g :=
  fifo_of_no_promotion fun _ hj hactive => absurd (is_unique hj hactive).2 (by decide)

theorem Consistent.finishLocked (h : Consistent g) (i : Nat) (ending : Ending) :
    Consistent (g.finishLocked i ending) ∧ Fifo g (g.finishLocked i ending) := by
  cases hget : g.leases[i]? with
  | none =>
    unfold Gate.finishLocked
    rw [hget]
    exact ⟨h, fifo_refl g⟩
  | some lease =>
    by_cases hlive : lease.isLive = true
    · by_cases hkind : lease.kind = .prompt
      · have hdone := h.finishPrompt hget hkind hlive ending
        unfold Gate.finishLocked
        rw [hget]
        dsimp only
        rw [if_pos hlive, hkind]
        exact hdone
      · exact h.finishMutation hget hkind hlive ending
    · unfold Gate.finishLocked
      rw [hget]
      dsimp only
      rw [if_neg hlive]
      exact ⟨h, fifo_refl g⟩

end

/-! ## New leases -/

section

variable {g : Gate} {leases : List Lease}

theorem getElem?_append_singleton (leases : List Lease) (lease : Lease) (j : Nat) :
    (leases ++ [lease])[j]? = if j = leases.length then some lease else leases[j]? := by
  by_cases hj : j = leases.length
  · rw [if_pos hj, hj, List.getElem?_append_right (Nat.le_refl _), Nat.sub_self]
    rfl
  rw [if_neg hj, List.getElem?_append]
  split
  · rfl
  rename_i hlt
  have hpos : 0 < j - leases.length := by omega
  rw [List.getElem?_eq_none (by simp; omega), List.getElem?_eq_none (by omega)]

theorem is_append (leases : List Lease) (lease : Lease) (j : Nat) (kind : LeaseKind)
    (s : LeaseState) : Is (leases ++ [lease]) j kind s ↔
      if j = leases.length then lease.kind = kind ∧ lease.state = s else Is leases j kind s := by
  unfold Is
  rw [getElem?_append_singleton]
  split
  · simp
  · exact Iff.rfl

theorem owns_append (leases : List Lease) (lease : Lease) (j : Nat) (key : String) :
    Owns (leases ++ [lease]) key j ↔
      if j = leases.length then
        lease.kind = .prompt ∧ lease.isLive = true ∧ lease.ownerKey = some key
      else Owns leases key j := by
  unfold Owns
  rw [getElem?_append_singleton]
  split
  · simp
  · exact Iff.rfl

theorem not_is_length (leases : List Lease) (kind : LeaseKind) (s : LeaseState) :
    ¬ Is leases leases.length kind s := by
  rintro ⟨lease, hget, _⟩
  rw [List.getElem?_eq_none (Nat.le_refl _)] at hget
  cases hget

theorem activeCount_append (leases : List Lease) (lease : Lease) :
    activeCount (leases ++ [lease]) =
      activeCount leases + if lease.isActivePrompt then 1 else 0 := by
  unfold activeCount
  rw [List.countP_append, List.countP_singleton]

theorem is_append_of_ne {lease : Lease} {kind : LeaseKind} {s : LeaseState}
    (hne : ¬ (lease.kind = kind ∧ lease.state = s)) (j : Nat) :
    Is (leases ++ [lease]) j kind s ↔ Is leases j kind s := by
  rw [is_append]
  split
  · rename_i he
    rw [he]
    exact iff_of_false hne (not_is_length leases kind s)
  · exact Iff.rfl

theorem fifo_append (lease : Lease) (t : Gate) (ht : t.leases = g.leases ++ [lease]) :
    Fifo g t := by
  refine fifo_of_no_promotion fun j hj hactive => ?_
  rw [ht, is_append] at hactive
  split at hactive
  · rename_i he
    rw [he] at hj
    exact not_is_length _ _ _ hj
  · exact absurd (is_unique hj hactive).2 (by decide)

theorem Consistent.addPrompt (h : Consistent g) {key : String} {state : LeaseState}
    (hnew : g.promptLeases.get? key = none) (hauth : g.authLease = none)
    (hconfig : g.configLease = none)
    (hstate : (state = .active ∧ g.activePrompts < g.limits.maxActiveTurns) ∨
      (state = .queued ∧ ¬ g.activePrompts < g.limits.maxActiveTurns ∧
        g.queue.length < g.limits.maxQueuedPrompts)) :
    Consistent { g with
      leases := g.leases ++ [⟨.prompt, state, some key⟩]
      activePrompts := if state = .active then g.activePrompts + 1 else g.activePrompts
      promptLeases := g.promptLeases.set key g.leases.length
      queue := if state = .queued then g.queue ++ [g.leases.length] else g.queue } := by
  have hlive : Lease.isLive ⟨.prompt, state, some key⟩ = true := by
    rcases hstate with ⟨rfl, _⟩ | ⟨rfl, _⟩
    · rfl
    · rfl
  have hbelow : ∀ j ∈ g.queue, j < g.leases.length := by
    intro j hj
    obtain ⟨lease, hget, _⟩ := (h.queued j).mp hj
    exact (List.getElem?_eq_some_iff.mp hget).choose
  have hbounded := h.bounded
  have hroom := h.room
  refine ⟨⟨?_, ?_, fun j => ?_, ?_, ?_, fun j lease hj hp => ?_, fun other j => ?_, fun j => ?_,
    fun j => ?_⟩, fun hne => absurd hauth hne, fun hne => absurd hconfig hne, fun hopen hne => ?_⟩
  · have hcounter := h.counter
    have happ := activeCount_append g.leases ⟨.prompt, state, some key⟩
    rcases hstate with ⟨rfl, _⟩ | ⟨rfl, _⟩
    · change g.activePrompts + 1 = (activeCount (g.leases ++ [_]) : Int)
      rw [happ, hcounter]
      rfl
    · change g.activePrompts = (activeCount (g.leases ++ [_]) : Int)
      rw [happ, hcounter]
      rfl
  · rcases hstate with ⟨rfl, hfree⟩ | ⟨rfl, _⟩
    · change g.activePrompts + 1 ≤ g.limits.maxActiveTurns
      omega
    · exact hbounded
  · rw [is_append]
    change j ∈ (if state = .queued then g.queue ++ [g.leases.length] else g.queue) ↔ _
    by_cases hj : j = g.leases.length
    · rw [if_pos hj]
      rcases hstate with ⟨rfl, _⟩ | ⟨rfl, _⟩
      · refine iff_of_false (fun hm => ?_) fun hs => by cases hs.2
        exact absurd (hbelow j hm) (by omega)
      · refine iff_of_true ?_ ⟨rfl, rfl⟩
        rw [if_pos rfl, hj]
        exact List.mem_append_right _ List.mem_cons_self
    · rw [if_neg hj, ← h.queued j]
      rcases hstate with ⟨rfl, _⟩ | ⟨rfl, _⟩
      · exact Iff.rfl
      · simp [hj]
  · rcases hstate with ⟨rfl, _⟩ | ⟨rfl, _⟩
    · exact h.ordered
    refine List.pairwise_append.mpr ⟨h.ordered, List.pairwise_singleton _ _, ?_⟩
    intro a ha b hb
    rw [List.mem_singleton.mp hb]
    exact hbelow a ha
  · rcases hstate with ⟨rfl, _⟩ | ⟨rfl, _, hlt⟩
    · exact hroom
    change (g.queue ++ [g.leases.length]).length ≤ _
    rw [List.length_append, List.length_singleton]
    exact hlt
  · have hj : (g.leases ++ [⟨.prompt, state, some key⟩])[j]? = some lease := hj
    rw [getElem?_append_singleton] at hj
    split at hj
    · cases hj
      exact ⟨key, rfl⟩
    · exact h.keyed j lease hj hp
  · change (g.promptLeases.set key g.leases.length).get? other = some j ↔ _
    rw [Dict.get?_set, owns_append]
    have hold := h.owners other j
    by_cases hj : j = g.leases.length
    · rw [if_pos hj]
      by_cases hk : other = key
      · rw [if_pos hk, hj, hk]
        exact iff_of_true rfl ⟨rfl, hlive, rfl⟩
      rw [if_neg hk]
      refine iff_of_false (fun hs => ?_) fun hs => hk (Option.some.inj hs.2.2).symm
      obtain ⟨lease, hget, _⟩ := hold.mp hs
      rw [hj, List.getElem?_eq_none (Nat.le_refl _)] at hget
      cases hget
    · rw [if_neg hj]
      by_cases hk : other = key
      · rw [if_pos hk]
        refine iff_of_false (fun hs => hj (Option.some.inj hs).symm) fun ho => ?_
        have hs := hold.mpr ho
        rw [hk, hnew] at hs
        cases hs
      · rw [if_neg hk]
        exact hold
  · rw [is_append_of_ne (by simp)]
    exact h.auth j
  · rw [is_append_of_ne (by simp)]
    exact h.config j
  · rcases hstate with ⟨rfl, hfree⟩ | ⟨rfl, hfull, _⟩
    · -- a free slot means that nobody was waiting
      have hmax := h.full hopen hne
      omega
    · change g.activePrompts = g.limits.maxActiveTurns
      omega

theorem Consistent.reservePrompt (h : Consistent g) {id : String} {i : Nat} {t : Gate}
    (hr : g.reservePrompt id = .ok (i, t)) : Consistent t ∧ Fifo g t := by
  unfold Gate.reservePrompt at hr
  obtain ⟨key, _, hr⟩ := except_bind_eq_ok.mp hr
  simp only [refuse_bind_eq_ok] at hr
  obtain ⟨_, hidle, hr⟩ := hr
  rw [Bool.or_eq_true, not_or] at hidle
  have hauth : g.authLease = none := by simpa using hidle.1
  have hconfig : g.configLease = none := by simpa using hidle.2
  cases hget : g.promptLeases.get? key with
  | some existing =>
    rw [hget] at hr
    cases hr
    exact ⟨h, fifo_refl _⟩
  | none =>
    rw [hget] at hr
    dsimp only at hr
    split at hr
    · rename_i hfree
      cases hr
      exact ⟨h.addPrompt hget hauth hconfig (.inl ⟨rfl, hfree⟩), fifo_append _ _ rfl⟩
    rename_i hfull
    rw [refuse_bind_eq_ok] at hr
    obtain ⟨hroom, hr⟩ := hr
    cases hr
    exact ⟨h.addPrompt hget hauth hconfig (.inr ⟨rfl, hfull, by omega⟩), fifo_append _ _ rfl⟩

/-- Nothing runs, waits or mutates when a mutation is granted. -/
theorem Consistent.idle (h : Consistent g) (hbusy : g.isBusy = false) :
    g.authLease = none ∧ g.configLease = none ∧ ¬ g.HasPrompt := by
  unfold isBusy at hbusy
  simp only [Bool.or_eq_false_iff, decide_eq_false_iff_not, Bool.not_eq_false',
    List.isEmpty_iff] at hbusy
  obtain ⟨⟨⟨hauth, hconfig⟩, hidle⟩, hempty⟩ := hbusy
  refine ⟨by simpa using hauth, by simpa using hconfig, ?_⟩
  rintro ⟨key, i, lease, hget, hkind, hlive, _⟩
  rcases (by simpa [Lease.isLive] using hlive : lease.state = .active ∨ lease.state = .queued)
    with hs | hs
  · have hpos : 0 < activeCount g.leases :=
      List.countP_pos_iff.mpr ⟨lease, List.mem_of_getElem? hget, by
        simp [Lease.isActivePrompt, hkind, hs]⟩
    have hcounter := h.counter
    omega
  · have hm := (h.queued i).mpr ⟨lease, hget, hkind, hs⟩
    rw [hempty] at hm
    cases hm

theorem Consistent.addMutation (h : Consistent g) (hbusy : g.isBusy = false) {kind : LeaseKind}
    (hkind : kind ≠ .prompt) (revision : Nat) :
    Consistent { g with
      leases := g.leases ++ [⟨kind, .active, none⟩]
      authLease := if kind = .auth then some g.leases.length else g.authLease
      authMutationRevision := revision
      configLease := if kind = .config then some g.leases.length else g.configLease } := by
  obtain ⟨hauth, hconfig, hno⟩ := h.idle hbusy
  have hheld : ∀ (other : LeaseKind) (held : Option Nat), held = none →
      (∀ j, held = some j ↔ Is g.leases j other .active) → ∀ j,
      (if kind = other then some g.leases.length else held) = some j ↔
        Is (g.leases ++ [⟨kind, .active, none⟩]) j other .active := by
    intro other held hnone hold j
    rw [is_append]
    by_cases hk : kind = other
    · rw [if_pos hk]
      by_cases hj : j = g.leases.length
      · rw [if_pos hj, hj]
        exact iff_of_true rfl ⟨hk, rfl⟩
      · rw [if_neg hj, ← hold j, hnone]
        exact iff_of_false (fun hs => hj (Option.some.inj hs).symm) fun hs => by cases hs
    rw [if_neg hk]
    split
    · rename_i hj
      refine iff_of_false (fun hs => ?_) fun hs => hk hs.1
      rw [hnone] at hs
      cases hs
    · exact hold j
  have howns : ∀ key j, Owns (g.leases ++ [⟨kind, .active, none⟩]) key j ↔
      Owns g.leases key j := by
    intro key j
    rw [owns_append]
    split
    · rename_i hj
      refine iff_of_false (fun hs => hkind hs.1) ?_
      rintro ⟨lease, hget, _⟩
      rw [hj, List.getElem?_eq_none (Nat.le_refl _)] at hget
      cases hget
    · exact Iff.rfl
  have hprompt : ∀ t : Gate, t.leases = g.leases ++ [⟨kind, .active, none⟩] → ¬ t.HasPrompt := by
    rintro t ht ⟨key, i, ho⟩
    rw [ht, howns] at ho
    exact hno ⟨key, i, ho⟩
  refine ⟨⟨?_, h.bounded, fun j => ?_, h.ordered, h.room, fun j lease hj hp => ?_,
    fun key j => ?_, hheld .auth _ hauth h.auth, hheld .config _ hconfig h.config⟩,
    fun hne => ⟨?_, hprompt _ rfl⟩, fun hne => ⟨?_, hprompt _ rfl⟩, h.full⟩
  · have hcounter := h.counter
    have happ := activeCount_append g.leases ⟨kind, .active, none⟩
    have hidle : ¬ Lease.isActivePrompt ⟨kind, .active, none⟩ = true := by
      simp [Lease.isActivePrompt, hkind]
    rw [if_neg hidle] at happ
    change g.activePrompts = (activeCount (g.leases ++ [_]) : Int)
    rw [happ, hcounter]
    rfl
  · rw [is_append_of_ne (by simp [hkind])]
    exact h.queued j
  · have hj : (g.leases ++ [⟨kind, .active, none⟩])[j]? = some lease := hj
    rw [getElem?_append_singleton] at hj
    split at hj
    · cases hj
      exact absurd hp hkind
    · exact h.keyed j lease hj hp
  · rw [howns]
    exact h.owners key j
  · change (if kind = .config then some g.leases.length else g.configLease) = none
    have hk : kind = .auth := by
      by_contra hk
      exact hne (by simp [hk, hauth])
    rw [hk, hconfig]
    rfl
  · change (if kind = .auth then some g.leases.length else g.authLease) = none
    have hk : kind = .config := by
      by_contra hk
      exact hne (by simp [hk, hconfig])
    rw [hk, hauth]
    rfl

end

theorem Consistent.acquireAuthMutation {g : Gate} (h : Consistent g) {i : Nat} {t : Gate}
    (hr : g.acquireAuthMutation = .ok (i, t)) : Consistent t ∧ Fifo g t := by
  unfold Gate.acquireAuthMutation at hr
  simp only [refuse_bind_eq_ok] at hr
  obtain ⟨_, hbusy, hr⟩ := hr
  cases hr
  exact ⟨h.addMutation (by simpa using hbusy) (by decide) _, fifo_append _ _ rfl⟩

theorem Consistent.acquireConfigMutation {g : Gate} (h : Consistent g) {i : Nat} {t : Gate}
    (hr : g.acquireConfigMutation = .ok (i, t)) : Consistent t ∧ Fifo g t := by
  unfold Gate.acquireConfigMutation at hr
  simp only [refuse_bind_eq_ok] at hr
  obtain ⟨_, hbusy, hr⟩ := hr
  cases hr
  exact ⟨h.addMutation (by simpa using hbusy) (by decide) _, fifo_append _ _ rfl⟩

theorem closeFrom_spec (q : List Nat) (g : Gate) (h : Counted { g with queue := q }) :
    Counted (closeFrom q g) ∧ (closeFrom q g).closed = g.closed ∧ (closeFrom q g).queue = [] ∧
      (closeFrom q g).authLease = g.authLease ∧ (closeFrom q g).configLease = g.configLease ∧
      (∀ key j, Owns (closeFrom q g).leases key j → Owns g.leases key j) ∧
      ∀ j, Is (closeFrom q g).leases j .prompt .active → Is g.leases j .prompt .active := by
  induction q generalizing g with
  | nil => exact ⟨h, rfl, rfl, rfl, rfl, fun _ _ ho => ho, fun _ ha => ha⟩
  | cons i rest ih =>
    obtain ⟨lease, hget, hkind, hstate⟩ := (h.queued i).mp List.mem_cons_self
    have hget : g.leases[i]? = some lease := hget
    obtain ⟨key, hkey⟩ := h.keyed i lease hget hkind
    have hlive : lease.isLive = true := by simp [Lease.isLive, hstate]
    have hretired := h.retire hget hkind hlive hkey .closed (by decide) (by decide)
    have hactive : ¬ lease.state = .active := by
      rw [hstate]
      decide
    rw [if_neg hactive, List.erase_cons_head] at hretired
    unfold closeFrom
    rw [setState_eq hget, hget, Option.bind_some, hkey]
    obtain ⟨hcounted, hclosed, hqueue, hauth, hconfig, howns, his⟩ := ih { g with
      leases := withState g.leases i lease .closed
      promptLeases := g.promptLeases.erase key } hretired
    refine ⟨hcounted, hclosed, hqueue, hauth, hconfig, fun other j ho => ?_, fun j ha => ?_⟩
    · have ho := howns other j ho
      rw [owns_withState hget] at ho
      split at ho
      · rcases ho.2.2 with hs | hs
        · cases hs
        · cases hs
      · exact ho
    · have ha := his j ha
      rw [is_withState hget] at ha
      split at ha
      · cases ha.2
      · exact ha

section

variable {g : Gate} (h : Consistent g)

include h

theorem Consistent.close : Consistent g.close ∧ Fifo g g.close := by
  unfold Gate.close
  split
  · exact ⟨h, fifo_refl g⟩
  have hopen : Counted { g with closed := true } :=
    ⟨h.counter, h.bounded, h.queued, h.ordered, h.room, h.keyed, h.owners, h.auth, h.config⟩
  obtain ⟨hcounted, hclosed, hqueue, hauth, hconfig, howns, his⟩ :=
    closeFrom_spec g.queue { g with closed := true } hopen
  have hprompt : (closeFrom g.queue { g with closed := true }).HasPrompt → g.HasPrompt := by
    rintro ⟨key, j, ho⟩
    exact ⟨key, j, howns key j ho⟩
  refine ⟨⟨hcounted, fun hne => ?_, fun hne => ?_, fun _ hne => absurd hqueue hne⟩,
    fifo_of_no_promotion fun j hj hactive => ?_⟩
  · rw [hauth] at hne
    obtain ⟨hnone, hno⟩ := h.authAlone hne
    exact ⟨hconfig.trans hnone, fun hp => hno (hprompt hp)⟩
  · rw [hconfig] at hne
    obtain ⟨hnone, hno⟩ := h.configAlone hne
    exact ⟨hauth.trans hnone, fun hp => hno (hprompt hp)⟩
  · exact absurd (is_unique hj (his j hactive)).2 (by decide)

theorem Consistent.look (i : Nat) (expired : Bool) :
    Consistent (g.look i expired).2 ∧ Fifo g (g.look i expired).2 := by
  unfold Gate.look
  split
  case h_6 =>
    split
    · exact h.finishLocked i .timedOut
    · exact ⟨h, fifo_refl g⟩
  all_goals exact ⟨h, fifo_refl g⟩

theorem Consistent.after {r : Except GateError (Nat × Gate)}
    (hr : ∀ i t, r = .ok (i, t) → Consistent t ∧ Fifo g t) :
    Consistent (g.after r) ∧ Fifo g (g.after r) := by
  cases r with
  | error e => exact ⟨h, fifo_refl g⟩
  | ok a => exact hr a.1 a.2 rfl

end

theorem Consistent.next {s t : GateThreads} {c : Section} (h : Consistent s.gate)
    (hn : s.next c = some t) : Consistent t.gate ∧ Fifo s.gate t.gate := by
  cases c with
  | reserve id =>
    cases hn
    exact h.after fun _ _ hr => h.reservePrompt hr
  | acquireAuth =>
    cases hn
    exact h.after fun _ _ hr => h.acquireAuthMutation hr
  | acquireConfig =>
    cases hn
    exact h.after fun _ _ hr => h.acquireConfigMutation hr
  | release i =>
    obtain ⟨_, hn⟩ := Option.ite_none_right_eq_some.mp hn
    cases hn
    exact h.finishLocked i .released
  | cancelLook i =>
    obtain ⟨_, hn⟩ := Option.ite_none_right_eq_some.mp hn
    cases hn
    split
    · exact ⟨h, fifo_refl _⟩
    · exact ⟨h, fifo_refl _⟩
  | cancelFinish i =>
    obtain ⟨_, hn⟩ := Option.ite_none_right_eq_some.mp hn
    cases hn
    exact h.finishLocked i .cancelled
  | look i expired =>
    obtain ⟨_, hn⟩ := Option.ite_none_right_eq_some.mp hn
    cases hn
    exact h.look i expired
  | close =>
    cases hn
    exact h.close

theorem consistent_initial (limits : GateLimits) : Consistent (initial limits) := by
  have hno : ∀ j kind s, ¬ Is ([] : List Lease) j kind s := by
    rintro j kind s ⟨lease, hget, _⟩
    cases hget
  have howns : ∀ key j, ¬ Owns ([] : List Lease) key j := by
    rintro key j ⟨lease, hget, _⟩
    cases hget
  have hlimit : (0 : Int) ≤ limits.maxActiveTurns := by omega
  refine ⟨⟨rfl, hlimit, fun j => ?_, List.Pairwise.nil, Nat.zero_le _, fun j lease hj => ?_,
    fun key j => ?_, fun j => ?_, fun j => ?_⟩, fun hne => absurd rfl hne,
    fun hne => absurd rfl hne, fun _ hne => absurd rfl hne⟩
  · exact iff_of_false (by simp [initial]) (hno j _ _)
  · cases hj
  · exact iff_of_false (by simp [initial]) (howns key j)
  · exact iff_of_false (by simp [initial]) (hno j _ _)
  · exact iff_of_false (by simp [initial]) (hno j _ _)

/-- Whatever the threads do in whatever order, the counter, the queue and the maps agree
with the leases, and the next section promotes first come first served. -/
theorem reachable_orderly (limits : GateLimits) (sections : List Section) (s : GateThreads)
    (h : Runs.exec GateThreads.next (Gate.start limits) sections = some s) :
    Consistent s.gate ∧ ∀ c t, s.next c = some t → Fifo s.gate t.gate := by
  have hs : Consistent s.gate :=
    Runs.invariant (I := fun s => Consistent s.gate) (fun _ _ _ hi hn => (hi.next hn).1)
      (consistent_initial limits) h
  exact ⟨hs, fun _ _ hn => (hs.next hn).2⟩

/-- Three prompts on one slot; the second is cancelled while it is being promoted. -/
def racingSections : List Section :=
  [.reserve "a", .reserve "b", .reserve "c", .reserve "a", .cancelLook 1, .release 0,
    .cancelFinish 1, .release 1, .look 2 true, .acquireAuth, .close, .release 2]

theorem reachable_orderly_racingSections : ∃ s,
    Runs.exec GateThreads.next (Gate.start ⟨1, 8, by decide⟩) racingSections = some s ∧
      s.gate.leases.map Lease.state = [.released, .cancelled, .released] ∧
      Consistent s.gate ∧ ∀ c t, s.next c = some t → Fifo s.gate t.gate := by
  have hrun : (Runs.exec GateThreads.next (Gate.start ⟨1, 8, by decide⟩) racingSections).any
      (fun s => s.gate.leases.map Lease.state = [.released, .cancelled, .released]) = true := by
    decide +kernel
  obtain ⟨s, hs, hstates⟩ := (Option.any_eq_true _ _).mp hrun
  exact ⟨s, hs, by simpa using hstates,
    reachable_orderly ⟨1, 8, by decide⟩ racingSections s hs⟩

end Gate

end CodexBridge.Runtime
