import CodexBridge.Accounts.Profiles
import CodexBridge.Library.Runs

/-! # The newest sign-in is kept

For every saved account the newest version is in the native file, in the profile or, while a
usage read is under way, in its temporary home. The native file is never older than the
profile of its account. What breaks this replaces a native file that nobody saved, or drops
a temporary home with a refreshed sign-in in it.
-/

namespace CodexBridge.Accounts

namespace Probe

def profile : Probe → String
  | .checked profile | .running profile _ _ | .stopped profile _ _ => profile

def copies : Probe → Option (Credential × Credential)
  | .checked _ => none
  | .running _ raw held | .stopped _ raw held => some (raw, held)

end Probe

namespace Operation

/-- The native file as the operation read it, about to be written into a profile. -/
def raw : Operation → Option Credential
  | .save raw => raw
  | .switch _ _ (.copying _ _ raw) => some raw
  | .prepare (.copying raw) => some raw
  | _ => none

/-- The native file a rollback would write. -/
def previous : Operation → Option Credential
  | .switch _ _ (.installed _ previous) | .switch _ _ (.restoring previous) => previous
  | .prepare (.preserved previous) | .prepare (.detached previous)
  | .prepare (.restoring previous) => some previous
  | _ => none

def target : Operation → Option (String × Credential)
  | .switch profile _ (.targeted target) | .switch profile _ (.readied target _)
  | .switch profile _ (.copying target _ _) | .switch profile _ (.copied target _) =>
    some (profile, target)
  | _ => none

end Operation

namespace World

/-! ## What must hold -/

/-- Whenever no operation is in progress, the newest version issued for each saved account is
in the native file or in its profile. -/
def Kept (w : World) : Prop :=
  w.operation = none → w.probe = none → ∀ i a, w.registry.get? i = some a →
    w.auth = some ⟨some a, w.newest a⟩ ∨ w.saved.get? i = some ⟨some a, w.newest a⟩

def settled (w : World) : Option Credential → Bool
  | some ⟨some a, v⟩ =>
    match w.profileOf a with
    | some i => w.saved.get? i = some ⟨some a, v⟩
    | none => true
  | _ => true

def probes (w : World) (account : Option String) : Bool :=
  match w.probe.bind Probe.copies with
  | some (raw, _) => raw.account = account
  | none => false

/-- The native file is replaced or removed only when it and what replaces it are saved, a
usage read that refreshed a sign-in stores it, and a removal that deleted a credential does
not fail. -/
def Careful (w : World) : Step → Bool
  | .activate o =>
    match w.operation with
    | some (.switch _ _ (.copied target previous)) =>
      !o.effective || (w.auth = previous && w.settled w.auth && w.settled (some target))
    | _ => true
  | .detach o => !o.effective || w.settled w.auth
  | .restore o =>
    match w.operation with
    | some operation =>
      !o.effective || (w.settled w.auth && w.settled operation.previous &&
        !w.probes (operation.previous.bind Credential.account))
    | none => true
  | .removeInactive o => o ≠ .failed true
  | .readSaved =>
    match w.probe with
    | some p => w.currentAccount.isNone || w.currentAccount ≠ w.registry.get? p.profile
    | none => true
  | .storeProbe o =>
    match w.probe with
    | some (.stopped profile raw held) => held = raw || (w.keeps profile raw held && o.effective)
    | _ => true
  | .failProbe =>
    match w.probe.bind Probe.copies with
    | some (raw, held) => held = raw
    | none => true
  | _ => true

def Holds (w : World) (i a : String) : Prop :=
  w.auth = some ⟨some a, w.newest a⟩ ∨ w.saved.get? i = some ⟨some a, w.newest a⟩ ∨
    ∃ p raw, w.probe = some p ∧ p.profile = i ∧ p.copies = some (raw, ⟨some a, w.newest a⟩)

/-- A usage read holds a version that is older than the native file of the same account, and
is the only one to move it. -/
structure Probing (w : World) (p : Probe) (raw held : Credential) : Prop where
  versions : ∃ a v v', raw = ⟨some a, v⟩ ∧ held = ⟨some a, v'⟩ ∧ v ≤ v' ∧ v' ≤ w.newest a
  below : ∀ a v, held.account = some a → w.auth = some ⟨some a, v⟩ → held.version < v
  current : ∀ i a, w.registry.get? i = some a → held.account = some a →
    (i = p.profile ∧ w.saved.get? i = some raw) ∨ held.version < w.newest a

structure Core (w : World) : Prop where
  accounts : ∀ i j a, w.registry.get? i = some a → w.registry.get? j = some a → i = j
  known : ∀ i a, w.registry.get? i = some a → i ∈ w.drawn
  owned : ∀ i a c, w.registry.get? i = some a → w.saved.get? i = some c →
    c.account = some a ∧ c.version ≤ w.newest a
  bound : ∀ a v, w.auth = some ⟨some a, v⟩ → v ≤ w.newest a
  aged : ∀ i a v c, w.auth = some ⟨some a, v⟩ → w.registry.get? i = some a →
    w.saved.get? i = some c → c.version ≤ v
  held : ∀ i a, w.registry.get? i = some a → w.Holds i a
  fresh : ∀ a v, w.auth = some ⟨some a, v⟩ → (∀ i, w.registry.get? i ≠ some a) → v = w.newest a
  probing : ∀ p raw held, w.probe = some p → p.copies = some (raw, held) → w.Probing p raw held

/-- The native file still holds the account that was read, and nothing older. -/
def Reading (w : World) (raw : Credential) : Prop :=
  ∃ a v v', raw = ⟨some a, v⟩ ∧ w.auth = some ⟨some a, v'⟩ ∧ v ≤ v' ∧
    ∀ p c held, w.probe = some p → p.copies = some (c, held) → held.account = some a →
      held.version < v

/-- A rollback would write the newest version of an account that has no profile. -/
def Returning (w : World) (previous : Credential) : Prop :=
  ∀ a v, previous = ⟨some a, v⟩ → v ≤ w.newest a ∧ ((∃ i, w.registry.get? i = some a) ∨
    (v = w.newest a ∧ w.switching = true ∧ ∀ v', w.auth ≠ some ⟨some a, v'⟩))

structure Running (w : World) : Prop where
  alone : w.switching = true → w.probe = none
  reading : ∀ op raw, w.operation = some op → op.raw = some raw → w.Reading raw
  returning : ∀ op previous, w.operation = some op → op.previous = some previous →
    w.Returning previous
  targeted : ∀ op profile target, w.operation = some op → op.target = some (profile, target) →
    ∃ a, target.account = some a ∧ w.registry.get? profile = some a

structure Inv (w : World) : Prop where
  core : w.Core
  running : w.Running

theorem Inv.kept {w : World} (h : w.Inv) : w.Kept := by
  intro _ hprobe i a hi
  rcases h.core.held i a hi with ha | hs | ⟨p, raw, hp, _⟩
  · exact Or.inl ha
  · exact Or.inr hs
  · rw [hprobe] at hp
    cases hp

theorem inv_initial : initial.Inv where
  core := {
    accounts := fun i j a hi => by cases hi
    known := fun i a hi => by cases hi
    owned := fun i a c hi => by cases hi
    bound := fun a v ha => by cases ha
    aged := fun i a v c ha => by cases ha
    held := fun i a hi => by cases hi
    fresh := fun a v ha => by cases ha
    probing := fun p raw held hp => by cases hp }
  running := {
    alone := fun _ => rfl
    reading := fun op raw hop => by cases hop
    returning := fun op previous hop => by cases hop
    targeted := fun op profile target hop => by cases hop }

section

variable {w t : World}

theorem profileOf_eq_some {a i : String} (h : w.profileOf a = some i) :
    w.registry.get? i = some a := by
  unfold profileOf at h
  obtain ⟨e, he, rfl⟩ := Option.map_eq_some_iff.mp h
  have ha : e.2 = a := by simpa using List.find?_some he
  have hm := List.mem_of_find?_eq_some he
  rw [Dict.get?_eq_some_iff, ← ha]
  exact hm

theorem profileOf_eq_none {a : String} (h : w.profileOf a = none) (i : String) :
    w.registry.get? i ≠ some a := by
  intro hi
  unfold profileOf at h
  rw [Option.map_eq_none_iff, List.find?_eq_none] at h
  have hm := (Dict.get?_eq_some_iff _ _ _).mp hi
  have hno := h (i, a) hm
  simp at hno

theorem targetCredential_eq_some {i : String} {c : Credential} (h : w.targetCredential i = some c) :
    ∃ a, w.registry.get? i = some a ∧ w.saved.get? i = some c ∧ c.account = some a := by
  unfold targetCredential at h
  split at h
  · rename_i a c' hreg hsaved
    rcases Runs.taken h with ⟨hacc, rfl⟩
    exact ⟨a, hreg, hsaved, hacc⟩
  · cases h

theorem Core.settled (h : w.Core) {a : String} {v : Nat}
    (hs : w.settled (some ⟨some a, v⟩) = true) {i : String} (hi : w.registry.get? i = some a) :
    w.saved.get? i = some ⟨some a, v⟩ := by
  unfold World.settled at hs
  dsimp only at hs
  cases hp : w.profileOf a with
  | none => exact absurd hi (profileOf_eq_none hp i)
  | some j =>
    rw [hp] at hs
    have hij := h.accounts i j a hi (profileOf_eq_some hp)
    rw [hij]
    simpa using hs

/-- Both the old and the new content are saved. -/
theorem Core.setAuth (h : w.Core) (new : Option Credential) (hold : w.settled w.auth = true)
    (hnew : w.settled new = true) (hbound : ∀ a v, new = some ⟨some a, v⟩ → v ≤ w.newest a)
    (hfresh : ∀ a v, new = some ⟨some a, v⟩ → (∀ i, w.registry.get? i ≠ some a) → v = w.newest a)
    (hprobe : ∀ p raw held a v, w.probe = some p → p.copies = some (raw, held) →
      new = some ⟨some a, v⟩ → held.account ≠ some a) : (w.setAuth new).Core where
  accounts := h.accounts
  known := h.known
  owned := h.owned
  bound := hbound
  aged i a v c ha hi hc := by
    replace ha : new = some ⟨some a, v⟩ := ha
    replace hc : w.saved.get? i = some c := hc
    rw [ha] at hnew
    rw [h.settled hnew hi] at hc
    cases hc
    exact Nat.le_refl v
  held i a hi := by
    rcases h.held i a hi with ha | hs | hp
    · rw [ha] at hold
      exact Or.inr (Or.inl (h.settled hold hi))
    · exact Or.inr (Or.inl hs)
    · exact Or.inr (Or.inr hp)
  fresh := hfresh
  probing p raw held hp hc := by
    have hprobing := h.probing p raw held hp hc
    refine ⟨hprobing.versions, ?_, hprobing.current⟩
    intro a v ha hauth
    exact absurd ha (hprobe p raw held a v hp hc hauth)

theorem newest_issue (w : World) (a b : String) :
    (w.issue a).newest b = if b = a then w.newest b + 1 else w.newest b := rfl

theorem newest_le_issue (w : World) (a b : String) : w.newest b ≤ (w.issue a).newest b := by
  rw [newest_issue]
  split <;> omega

section

variable (h : w.Core)

include h

/-- The next version of an account goes into the native file, over an absent file or one of
the same account. -/
theorem Core.issue (a : String) (hauth : ∀ c, w.auth = some c → c.account = some a) :
    ((w.issue a).setAuth (some ⟨some a, w.newest a + 1⟩)).Core where
  accounts := h.accounts
  known := h.known
  owned i b c hi hc := by
    obtain ⟨hb, hle⟩ := h.owned i b c hi hc
    exact ⟨hb, Nat.le_trans hle (newest_le_issue w a b)⟩
  bound b v hb := by
    cases hb
    have hself : (w.issue a).newest a = w.newest a + 1 := by rw [newest_issue, if_pos rfl]
    exact Nat.le_of_eq hself.symm
  aged i b v c hb hi hc := by
    cases hb
    have hle := (h.owned i a c hi hc).2
    omega
  held i b hi := by
    by_cases hb : b = a
    · left
      show some (Credential.mk (some a) (w.newest a + 1)) = some ⟨some b, (w.issue a).newest b⟩
      rw [newest_issue, if_pos hb, hb]
    have hsame : (w.issue a).newest b = w.newest b := by rw [newest_issue, if_neg hb]
    rcases h.held i b hi with hauth' | hs | ⟨p, raw, hp, hpi, hpc⟩
    · have hab := hauth _ hauth'
      exact absurd (Option.some.inj hab) hb
    · right
      left
      show w.saved.get? i = some ⟨some b, (w.issue a).newest b⟩
      rw [hsame]
      exact hs
    · right
      right
      refine ⟨p, raw, hp, hpi, ?_⟩
      show p.copies = some (raw, ⟨some b, (w.issue a).newest b⟩)
      rw [hsame]
      exact hpc
  fresh b v hb _ := by
    cases hb
    show w.newest a + 1 = (w.issue a).newest a
    rw [newest_issue, if_pos rfl]
  probing p raw held hp hc := by
    have hprobing := h.probing p raw held hp hc
    obtain ⟨b, v, v', hraw, hheld, hle, hnew⟩ := hprobing.versions
    refine ⟨⟨b, v, v', hraw, hheld, hle, Nat.le_trans hnew (newest_le_issue w a b)⟩, ?_, ?_⟩
    · intro c v'' hacc hauth'
      cases hauth'
      rw [hheld] at hacc ⊢
      cases hacc
      show v' < w.newest a + 1
      omega
    · intro i c hi hacc
      cases hprobing.current i c hi hacc with
      | inl hs => exact Or.inl hs
      | inr hlt => exact Or.inr (Nat.lt_of_lt_of_le hlt (newest_le_issue w a c))

/-! ## A profile is written -/

/-- What was read from the native file goes into the profile of its account. -/
theorem Core.copy {a i : String} {v : Nat} (hraw : w.Reading ⟨some a, v⟩)
    (hi : w.registry.get? i = some a) (o : Write) : (w.copy i ⟨some a, v⟩ o).Core := by
  unfold World.copy
  split
  · obtain ⟨b, v₀, v', hb, hauth, hle, hprobe⟩ := hraw
    cases hb
    have hbound := h.bound a v' hauth
    have hget : ∀ j, (w.setSaved i ⟨some a, v⟩).saved.get? j =
        if j = i then some ⟨some a, v⟩ else w.saved.get? j := fun j => Dict.get?_set _ _ _ _
    refine ⟨h.accounts, h.known, ?_, h.bound, ?_, ?_, h.fresh, ?_⟩
    · intro j b c hj hc
      rw [hget] at hc
      by_cases hji : j = i
      · rw [if_pos hji] at hc
        cases hc
        rw [hji] at hj
        have hab : a = b := Option.some.inj (hi.symm.trans hj)
        refine ⟨by rw [hab], ?_⟩
        show v ≤ w.newest b
        rw [← hab]
        omega
      · rw [if_neg hji] at hc
        exact h.owned j b c hj hc
    · intro j b v'' c hauth' hj hc
      rw [hget] at hc
      by_cases hji : j = i
      · rw [if_pos hji] at hc
        cases hc
        replace hauth' : w.auth = some ⟨some b, v''⟩ := hauth'
        rw [hauth] at hauth'
        cases hauth'
        exact hle
      · rw [if_neg hji] at hc
        exact h.aged j b v'' c hauth' hj hc
    · intro j b hj
      rcases h.held j b hj with ha | hs | hp
      · exact Or.inl ha
      · by_cases hji : j = i
        · -- the native file is no older than what the profile had
          left
          rw [hji] at hj hs
          have hab : a = b := Option.some.inj (hi.symm.trans hj)
          have haged := h.aged i a v' _ hauth hi hs
          have hnewest : v' = w.newest b := by
            rw [← hab] at haged ⊢
            exact Nat.le_antisymm hbound haged
          show w.auth = some ⟨some b, w.newest b⟩
          rw [hauth, hnewest, hab]
        · right
          left
          show (w.setSaved i ⟨some a, v⟩).saved.get? j = some ⟨some b, w.newest b⟩
          rw [hget, if_neg hji]
          exact hs
      · exact Or.inr (Or.inr hp)
    · intro p raw held hp hc
      have hprobing := h.probing p raw held hp hc
      refine ⟨hprobing.versions, hprobing.below, ?_⟩
      intro j b hj hacc
      by_cases hji : j = i
      · right
        have hab : a = b := Option.some.inj (hi.symm.trans (hji ▸ hj))
        have hlt := hprobe p raw held hp hc (hab ▸ hacc)
        show held.version < w.newest b
        rw [← hab]
        omega
      · rw [hget, if_neg hji]
        exact hprobing.current j b hj hacc
  · exact h

/-- A drawn id whose profile is not in the registry yet. -/
theorem Core.draw (i : String) (raw : Credential) (o : Write) (hi : w.registry.get? i = none) :
    Core { w.copy i raw o with drawn := i :: w.drawn } := by
  have hget : ∀ j b, w.registry.get? j = some b → (w.copy i raw o).saved.get? j =
      w.saved.get? j := by
    intro j b hj
    have hji : j ≠ i := fun he => by
      rw [he, hi] at hj
      cases hj
    unfold World.copy
    split
    · exact Dict.get?_set_of_ne _ _ hji
    · rfl
  have hsame : (w.copy i raw o).registry = w.registry ∧ (w.copy i raw o).auth = w.auth ∧
      (w.copy i raw o).newest = w.newest ∧ (w.copy i raw o).probe = w.probe := by
    unfold World.copy
    split <;> exact ⟨rfl, rfl, rfl, rfl⟩
  obtain ⟨hreg, hauth, hnew, hprobe⟩ := hsame
  generalize w.copy i raw o = u at hget hreg hauth hnew hprobe
  have hkeep : ∀ j b, w.registry.get? j = some b → w.Holds j b →
      Holds { u with drawn := i :: w.drawn } j b := by
    intro j b hj hholds
    unfold Holds
    dsimp only
    rw [hauth, hnew, hprobe, hget j b hj]
    exact hholds
  constructor
  · dsimp only
    rw [hreg]
    exact h.accounts
  · dsimp only
    rw [hreg]
    intro j b hj
    exact List.mem_cons_of_mem i (h.known j b hj)
  · dsimp only
    rw [hreg, hnew]
    intro j b c hj hc
    rw [hget j b hj] at hc
    exact h.owned j b c hj hc
  · dsimp only
    rw [hauth, hnew]
    exact h.bound
  · dsimp only
    rw [hauth, hreg]
    intro j b v c ha hj hc
    rw [hget j b hj] at hc
    exact h.aged j b v c ha hj hc
  · dsimp only
    rw [hreg]
    intro j b hj
    exact hkeep j b hj (h.held j b hj)
  · dsimp only
    rw [hauth, hreg, hnew]
    exact h.fresh
  · dsimp only
    rw [hprobe]
    intro p c held hp hc
    have hprobing := h.probing p c held hp hc
    constructor
    · dsimp only
      rw [hnew]
      exact hprobing.versions
    · dsimp only
      rw [hauth]
      exact hprobing.below
    · dsimp only
      rw [hreg, hnew]
      intro j b hj hacc
      rw [hget j b hj]
      exact hprobing.current j b hj hacc

/-- A saved copy of an account without a profile enters the registry. -/
theorem Core.register {a i : String} {v : Nat} (hraw : w.Reading ⟨some a, v⟩)
    (hnone : ∀ j, w.registry.get? j ≠ some a) (hi : w.registry.get? i = none)
    (hdrawn : i ∈ w.drawn) (hsaved : w.saved.get? i = some ⟨some a, v⟩) :
    Core { w with registry := w.registry.set i a, activeProfile := some i } := by
  obtain ⟨b, v₀, v', hb, hauth, hle, hprobe⟩ := hraw
  cases hb
  have hbound := h.bound a v' hauth
  have hcase : ∀ j b, (w.registry.set i a).get? j = some b →
      (j = i ∧ b = a) ∨ (j ≠ i ∧ w.registry.get? j = some b) := by
    intro j b hj
    rw [Dict.get?_set] at hj
    by_cases hji : j = i
    · rw [if_pos hji] at hj
      exact Or.inl ⟨hji, (Option.some.inj hj).symm⟩
    · rw [if_neg hji] at hj
      exact Or.inr ⟨hji, hj⟩
  constructor
  · intro j k b hj hk
    rcases hcase j b hj with ⟨hji, hba⟩ | ⟨_, hj'⟩
    · rcases hcase k b hk with ⟨hki, _⟩ | ⟨_, hk'⟩
      · rw [hji, hki]
      · exact absurd (hba ▸ hk') (hnone k)
    · rcases hcase k b hk with ⟨_, hba⟩ | ⟨_, hk'⟩
      · exact absurd (hba ▸ hj') (hnone j)
      · exact h.accounts j k b hj' hk'
  · intro j b hj
    rcases hcase j b hj with ⟨hji, _⟩ | ⟨_, hj'⟩
    · rw [hji]
      exact hdrawn
    · exact h.known j b hj'
  · intro j b c hj hc
    rcases hcase j b hj with ⟨hji, hba⟩ | ⟨_, hj'⟩
    · rw [hji, hsaved] at hc
      cases hc
      rw [hba]
      exact ⟨rfl, Nat.le_trans hle hbound⟩
    · exact h.owned j b c hj' hc
  · exact h.bound
  · intro j b v'' c ha hj hc
    rcases hcase j b hj with ⟨hji, hba⟩ | ⟨_, hj'⟩
    · rw [hji, hsaved] at hc
      cases hc
      replace ha : w.auth = some ⟨some b, v''⟩ := ha
      rw [hauth] at ha
      cases ha
      exact hle
    · exact h.aged j b v'' c ha hj' hc
  · intro j b hj
    rcases hcase j b hj with ⟨_, hba⟩ | ⟨_, hj'⟩
    · left
      show w.auth = some ⟨some b, w.newest b⟩
      rw [hauth, h.fresh a v' hauth hnone, hba]
    · exact h.held j b hj'
  · intro b v'' ha hno
    apply h.fresh b v'' ha
    intro j hj
    have hji : j ≠ i := fun he => by
      rw [he, hi] at hj
      cases hj
    apply hno j
    show (w.registry.set i a).get? j = some b
    rw [Dict.get?_set_of_ne _ _ hji]
    exact hj
  · intro p c held hp hc
    have hprobing := h.probing p c held hp hc
    refine ⟨hprobing.versions, hprobing.below, ?_⟩
    intro j b hj hacc
    rcases hcase j b hj with ⟨_, hba⟩ | ⟨_, hj'⟩
    · right
      have hlt := hprobe p c held hp hc (hba ▸ hacc)
      show held.version < w.newest b
      rw [hba]
      omega
    · exact hprobing.current j b hj' hacc

theorem Core.removed {i a : String} (hi : w.registry.get? i = some a)
    (hcurrent : w.currentAccount ≠ some a) (active : Option String) :
    Core { w with
      saved := w.saved.erase i, registry := w.registry.erase i, activeProfile := active } := by
  have hcase : ∀ j b, (w.registry.erase i).get? j = some b →
      j ≠ i ∧ w.registry.get? j = some b := by
    intro j b hj
    rw [Dict.get?_erase] at hj
    by_cases hji : j = i
    · rw [if_pos hji] at hj
      cases hj
    · rw [if_neg hji] at hj
      exact ⟨hji, hj⟩
  have hsaved : ∀ j, j ≠ i → (w.saved.erase i).get? j = w.saved.get? j := by
    intro j hji
    rw [Dict.get?_erase, if_neg hji]
  constructor
  · intro j k b hj hk
    exact h.accounts j k b (hcase j b hj).2 (hcase k b hk).2
  · intro j b hj
    exact h.known j b (hcase j b hj).2
  · intro j b c hj hc
    obtain ⟨hji, hj'⟩ := hcase j b hj
    replace hc : (w.saved.erase i).get? j = some c := hc
    rw [hsaved j hji] at hc
    exact h.owned j b c hj' hc
  · exact h.bound
  · intro j b v c ha hj hc
    obtain ⟨hji, hj'⟩ := hcase j b hj
    replace hc : (w.saved.erase i).get? j = some c := hc
    rw [hsaved j hji] at hc
    exact h.aged j b v c ha hj' hc
  · intro j b hj
    obtain ⟨hji, hj'⟩ := hcase j b hj
    rcases h.held j b hj' with ha | hs | hp
    · exact Or.inl ha
    · right
      left
      show (w.saved.erase i).get? j = some ⟨some b, w.newest b⟩
      rw [hsaved j hji]
      exact hs
    · exact Or.inr (Or.inr hp)
  · intro b v ha hno
    apply h.fresh b v ha
    intro j hj
    by_cases hji : j = i
    · -- the removed profile is not of the current account
      apply hcurrent
      have hab : a = b := Option.some.inj (hi.symm.trans (hji ▸ hj))
      show w.auth.bind Credential.account = some a
      rw [show w.auth = some ⟨some b, v⟩ from ha, hab]
      rfl
    · apply hno j
      show (w.registry.erase i).get? j = some b
      rw [Dict.get?_erase, if_neg hji]
      exact hj
  · intro p c held hp hc
    have hprobing := h.probing p c held hp hc
    refine ⟨hprobing.versions, hprobing.below, ?_⟩
    intro j b hj hacc
    obtain ⟨hji, hj'⟩ := hcase j b hj
    show (j = p.profile ∧ (w.saved.erase i).get? j = some c) ∨ _
    rw [hsaved j hji]
    exact hprobing.current j b hj' hacc

/-- A usage read that refreshed a sign-in is not dropped. -/
theorem Core.setProbe (new : Option Probe)
    (hkeep : ∀ p raw held, w.probe = some p → p.copies = some (raw, held) → held ≠ raw →
      ∃ p', new = some p' ∧ p'.profile = p.profile ∧ p'.copies = some (raw, held))
    (hnew : ∀ p raw held, new = some p → p.copies = some (raw, held) → w.Probing p raw held) :
    (w.setProbe new).Core where
  accounts := h.accounts
  known := h.known
  owned := h.owned
  bound := h.bound
  aged := h.aged
  held i a hi := by
    rcases h.held i a hi with ha | hs | ⟨p, raw, hp, hpi, hpc⟩
    · exact Or.inl ha
    · exact Or.inr (Or.inl hs)
    · by_cases hraw : (⟨some a, w.newest a⟩ : Credential) = raw
      · -- the profile still has what was read from it
        right
        left
        have hprobing := h.probing p raw _ hp hpc
        cases hprobing.current i a hi rfl with
        | inl hs =>
          show w.saved.get? i = some ⟨some a, w.newest a⟩
          rw [hraw]
          exact hs.2
        | inr hlt =>
          replace hlt : w.newest a < w.newest a := hlt
          omega
      · obtain ⟨p', hp', hpi', hpc'⟩ := hkeep p raw _ hp hpc hraw
        exact Or.inr (Or.inr ⟨p', raw, hp', hpi'.trans hpi, hpc'⟩)
  fresh := h.fresh
  probing p raw held hp hc := by
    have hprobing := hnew p raw held hp hc
    exact ⟨hprobing.versions, hprobing.below, hprobing.current⟩

theorem Core.refreshProbe {profile a : String} {raw : Credential}
    (hp : w.probe = some (.running profile raw ⟨some a, w.newest a⟩)) :
    ((w.issue a).setProbe (some (.running profile raw ⟨some a, w.newest a + 1⟩))).Core := by
  have hprobing := h.probing _ raw ⟨some a, w.newest a⟩ hp rfl
  -- so the account is not the current one, and no other profile has it
  have hauth : ∀ v, w.auth ≠ some ⟨some a, v⟩ := by
    intro v hv
    have hlt : w.newest a < v := hprobing.below a v rfl hv
    have hle := h.bound a v hv
    omega
  have hmine : ∀ i, w.registry.get? i = some a → i = profile ∧ w.saved.get? i = some raw := by
    intro i hi
    cases hprobing.current i a hi rfl with
    | inl hs => exact hs
    | inr hlt =>
      replace hlt : w.newest a < w.newest a := hlt
      omega
  have hsame : ∀ b, b ≠ a → (w.issue a).newest b = w.newest b := by
    intro b hb
    rw [newest_issue, if_neg hb]
  have hself : (w.issue a).newest a = w.newest a + 1 := by rw [newest_issue, if_pos rfl]
  constructor
  · exact h.accounts
  · exact h.known
  · intro i b c hi hc
    obtain ⟨hb, hle⟩ := h.owned i b c hi hc
    exact ⟨hb, Nat.le_trans hle (newest_le_issue w a b)⟩
  · intro b v hb
    exact Nat.le_trans (h.bound b v hb) (newest_le_issue w a b)
  · exact h.aged
  · intro i b hi
    by_cases hb : b = a
    · right
      right
      refine ⟨_, raw, rfl, (hmine i (hb ▸ hi)).1.symm, ?_⟩
      show some (raw, _) = some (raw, Credential.mk (some b) ((w.issue a).newest b))
      rw [hb, hself]
    rcases h.held i b hi with ha | hs | ⟨p, raw', hp', hpi, hpc⟩
    · left
      show w.auth = some ⟨some b, (w.issue a).newest b⟩
      rw [hsame b hb]
      exact ha
    · right
      left
      show w.saved.get? i = some ⟨some b, (w.issue a).newest b⟩
      rw [hsame b hb]
      exact hs
    · rw [hp] at hp'
      cases hp'
      cases hpc
      exact absurd rfl hb
  · intro b v hb hno
    have hba : b ≠ a := fun he => hauth v (he ▸ hb)
    show v = (w.issue a).newest b
    rw [hsame b hba]
    exact h.fresh b v hb hno
  · intro p c held hp' hc
    cases hp'
    cases hc
    obtain ⟨b, v, v', hraw, hheld, hle, _⟩ := hprobing.versions
    cases hheld
    constructor
    · refine ⟨a, v, w.newest a + 1, hraw, rfl, by omega, ?_⟩
      exact Nat.le_of_eq hself.symm
    · intro b v'' hb hv
      cases hb
      exact absurd hv (hauth v'')
    · intro i b hi hb
      cases hb
      exact Or.inl (hmine i hi)

/-- The refreshed sign-in of a usage read goes into its profile. -/
theorem Core.store {profile : String} {raw held : Credential}
    (hp : w.probe = some (.stopped profile raw held)) (hkeeps : w.keeps profile raw held = true) :
    ((w.setSaved profile held).setProbe none).Core := by
  have hprobing := h.probing _ raw held hp rfl
  obtain ⟨a, v, v', hraw, hheld, hle, hnew⟩ := hprobing.versions
  have hget : ∀ j, ((w.setSaved profile held).setProbe none).saved.get? j =
      if j = profile then some held else w.saved.get? j := fun j => Dict.get?_set _ _ _ _
  have hmine : w.registry.get? profile = some a ∧ w.saved.get? profile = some raw := by
    unfold keeps at hkeeps
    cases ht : w.targetCredential profile with
    | none =>
      rw [ht] at hkeeps
      cases hkeeps
    | some current =>
      rw [ht] at hkeeps
      have hcr : current = raw := by
        have hboth := Bool.and_eq_true_iff.mp hkeeps
        simpa using hboth.1
      obtain ⟨b, hreg, hsaved, hacc⟩ := targetCredential_eq_some ht
      rw [hcr, hraw] at hacc
      cases hacc
      exact ⟨hreg, hcr ▸ hsaved⟩
  obtain ⟨hreg, hsaved⟩ := hmine
  refine ⟨h.accounts, h.known, ?_, h.bound, ?_, ?_, h.fresh, ?_⟩
  · intro j b c hj hc
    rw [hget] at hc
    by_cases hji : j = profile
    · rw [if_pos hji] at hc
      cases hc
      have hab : a = b := Option.some.inj (hreg.symm.trans (hji ▸ hj))
      rw [hheld, ← hab]
      exact ⟨rfl, hnew⟩
    · rw [if_neg hji] at hc
      exact h.owned j b c hj hc
  · intro j b v'' c ha hj hc
    rw [hget] at hc
    by_cases hji : j = profile
    · rw [if_pos hji] at hc
      cases hc
      have hab : a = b := Option.some.inj (hreg.symm.trans (hji ▸ hj))
      have hacc : held.account = some b := by rw [hheld, hab]
      exact Nat.le_of_lt (hprobing.below b v'' hacc ha)
    · rw [if_neg hji] at hc
      exact h.aged j b v'' c ha hj hc
  · intro j b hj
    have hstore : j = profile → v' = w.newest b →
        ((w.setSaved profile held).setProbe none).Holds j b := by
      intro hji hnewest
      right
      left
      have hab : a = b := Option.some.inj (hreg.symm.trans (hji ▸ hj))
      rw [hget, if_pos hji, hheld, hnewest, hab]
      rfl
    rcases h.held j b hj with ha | hs | ⟨p, raw', hp', hpi, hpc⟩
    · exact Or.inl ha
    · by_cases hji : j = profile
      · -- what was copied from the profile was already the newest
        apply hstore hji
        rw [hji, hsaved, hraw] at hs
        cases hs
        omega
      · right
        left
        rw [hget, if_neg hji]
        exact hs
    · rw [hp] at hp'
      cases hp'
      cases hpc
      cases hheld
      exact hstore hpi.symm rfl
  · intro p c held' hp' hc
    cases hp'

theorem Core.mark (operation : Option Operation) (active : Option String) :
    Core { w with operation := operation, activeProfile := active } :=
  ⟨h.accounts, h.known, h.owned, h.bound, h.aged, h.held, h.fresh, fun p raw held hp hc =>
    ⟨(h.probing p raw held hp hc).versions, (h.probing p raw held hp hc).below,
      (h.probing p raw held hp hc).current⟩⟩

end

end

end World

end CodexBridge.Accounts
