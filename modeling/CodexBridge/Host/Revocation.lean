import CodexBridge.Host.Access
import CodexBridge.Library.Runs

/-! # Revocation is final

What a run of the manager and the worker guarantees once the consent has ended. The blocks
under the lock only lessen the authority, except the one in which `enable` records a new
consent. The run that breaks the guarantee saves a consent and then reports that it could
not be saved.
-/

namespace CodexBridge.Host

open Effect Traces

/-! ## What ends a consent -/

/-- `revoke` returned, or `enable` raised another error than the one about the app. -/
def Event.ends : Event → Bool
  | .revoked => true
  | .enableRaised e => e ≠ unsaved
  | _ => false

/-- `revoke` returned or raised, or `enable` raised. -/
def Event.blocks : Event → Bool
  | .revoked | .revokeRaised _ | .enableRaised _ => true
  | _ => false

def Event.isEnabled : Event → Bool
  | .enabled _ => true
  | _ => false

def Event.isEnabledAs (grantId : String) : Event → Bool
  | .enabled g => g = grantId
  | _ => false

/-- A new consent, or a new process. -/
def Event.renews : Event → Bool
  | .enabled _ | .restarted _ => true
  | _ => false

/-- The consent ended, and `enable` has saved none since. -/
def Withdrawn (trace : List Event) : Prop := since Event.ends Event.isEnabled trace = true

/-- The consent ended, and no `enable` has saved one and returned since, where those of the
first list have returned already. -/
def endedBefore : List String → List Event → Bool
  | _, [] => false
  | returned, e :: past =>
    e.ends || match e with
      | .enableReturned grantId => endedBefore (grantId :: returned) past
      | .enabled grantId => !returned.contains grantId && endedBefore returned past
      | _ => endedBefore returned past

/-- The consent ended, and no `enable` has succeeded since. -/
def Ended (trace : List Event) : Prop := endedBefore [] trace = true

/-- The manager was told to end the consent, in this process and after the last consent. -/
def Blocked (trace : List Event) : Prop := since Event.blocks Event.renews trace = true

instance decidableWithdrawn (trace : List Event) : Decidable (Withdrawn trace) :=
  inferInstanceAs (Decidable (_ = true))

instance decidableEnded (trace : List Event) : Decidable (Ended trace) :=
  inferInstanceAs (Decidable (_ = true))

theorem endedBefore_mono {returned more : List String} (hsub : returned ⊆ more)
    {trace : List Event} (h : endedBefore more trace = true) :
    endedBefore returned trace = true := by
  induction trace generalizing returned more with
  | nil => cases h
  | cons e past ih =>
    unfold endedBefore at h ⊢
    rw [Bool.or_eq_true] at h ⊢
    refine h.imp_right fun h => ?_
    cases e with
    | enableReturned grantId => exact ih (List.cons_subset_cons grantId hsub) h
    | enabled grantId =>
      rw [Bool.and_eq_true] at h ⊢
      refine ⟨?_, ih hsub h.2⟩
      cases hmem : returned.contains grantId with
      | false => rfl
      | true =>
        have hmore := List.contains_iff_mem.mpr (hsub (List.contains_iff_mem.mp hmem))
        rw [hmore] at h
        cases h.1
    | enableRaised _ | revoked | revokeRaised _ | authorised _ _ | restarted _ => exact ih hsub h

/-- Only an event that ends the consent makes it ended. -/
theorem ended_cons {e : Event} {past : List Event} (h : Ended (e :: past)) :
    e.ends = true ∨ Ended past := by
  unfold Ended endedBefore at h
  rw [Bool.or_eq_true] at h
  refine h.imp_right fun h => ?_
  cases e with
  | enableReturned grantId => exact endedBefore_mono (List.nil_subset _) h
  | enabled _ | enableRaised _ | revoked | revokeRaised _ | authorised _ _ | restarted _ => exact h

namespace World

structure RevocationFinal (w : World) : Prop where
  noLease : Ended w.trace → ∀ lease, w.manager.active lease = false
  /-- No process finds a grant after the consent has ended. -/
  noGrant : Always (fun e past => ∀ g, e = .restarted (some g) → ¬ Ended past) w.trace
  /-- A revocation that could not be saved holds for the life of the process. -/
  blocked : Blocked w.trace → ∀ lease, w.manager.active lease = false
  authorised : ∀ lease, w.manager.active lease = true →
    ∃ g, .authorised lease (some g) ∈ w.trace
  granted : ∀ lease g, .authorised lease g ∈ w.trace → w.manager.active lease = true →
    w.manager.grant = g
  /-- Two consents have different grants. -/
  enabledOnce : ∀ id, w.trace.countP (Event.isEnabledAs id) ≤ 1
  worker : w.worker.Contained

def consentless (w : World) : Bool := w.manager.grant.isNone && !w.manager.file.restores

/-- After the consent has ended an `enable` has saved a new one, and has not returned. -/
def Renewing (trace : List Event) : Prop := Ended trace ∧ ¬ Withdrawn trace

instance decidableRenewing (trace : List Event) : Decidable (Renewing trace) :=
  inferInstanceAs (Decidable (_ ∧ _))

/-- An `enable` that refuses finds no earlier consent, and none of its saves fails, or ends
the process of a revoked consent, after the file was replaced. While it renews an ended consent
the process does not start again over the file, and no `authorise` completes. -/
def Conclusive (w : World) : Step → Bool
  | .callEnable _ _ acknowledged =>
    acknowledged && w.manager.pairing.isSome || w.consentless
  | .answer c reply _ o =>
    match w.calls.get? c with
    | some (.enable pairing scope) =>
      if w.manager.refuses pairing scope reply then w.consentless
      else o.saving ≠ .failed true && (o.saving ≠ .died true || !decide (Withdrawn w.trace))
    | some (.authorise pairing _ grantId) =>
      match HostAccessManager.workerStatus pairing reply with
      | .ok (scope, _) => !decide (Renewing w.trace) || !w.manager.grants pairing grantId scope
      | .error _ => true
    | _ => true
  | .restart _ => !decide (Renewing w.trace) || !w.manager.file.restores
  | _ => true

end World

/-! ## Blocks that only take authority -/

namespace HostAccessManager

def Held (m : HostAccessManager) : Prop :=
  ∀ run lease, m.leases.get? run = some lease →
    lease.runId = run ∧ m.grant = some ⟨lease.grantId, lease.scopeRevision⟩

/-- From `m` to `t` no authority was added. -/
structure Lessens (m t : HostAccessManager) : Prop where
  grant : t.grant = m.grant ∨ t.grant = none
  leases : ∀ run lease, t.leases.get? run = some lease →
    m.leases.get? run = some lease ∧ t.grant = m.grant
  file : t.file.restores = true → m.file.restores = true

/-- `_revoke_locked` has cleared the memory. -/
structure Cleared (t : HostAccessManager) : Prop where
  grant : t.grant = none
  leases : ∀ run, t.leases.get? run = none

variable {m t u : HostAccessManager}

theorem Lessens.refl (m : HostAccessManager) : Lessens m m where
  grant := Or.inl rfl
  leases _ _ h := ⟨h, rfl⟩
  file h := h

theorem Lessens.trans (h : Lessens m t) (h' : Lessens t u) : Lessens m u where
  grant := by
    cases h'.grant with
    | inl hg =>
      rw [hg]
      exact h.grant
    | inr hg => exact Or.inr hg
  leases run lease hl := by
    obtain ⟨hl', hg'⟩ := h'.leases run lease hl
    obtain ⟨hl'', hg''⟩ := h.leases run lease hl'
    exact ⟨hl'', hg'.trans hg''⟩
  file hf := h.file (h'.file hf)

theorem Cleared.lessens (h : Cleared t) (hf : t.file.restores = true → m.file.restores = true) :
    Lessens m t where
  grant := Or.inr h.grant
  leases run lease hl := by
    rw [h.leases run] at hl
    cases hl
  file := hf

theorem Held.leases_eq_none (h : m.Held) (hg : m.grant = none) (run : String) :
    m.leases.get? run = none := by
  cases hl : m.leases.get? run with
  | none => rfl
  | some lease =>
    obtain ⟨_, hgrant⟩ := h run lease hl
    rw [hg] at hgrant
    cases hgrant

theorem Held.lessens (h : m.Held) (hl : Lessens m t) : t.Held := by
  intro run lease hr
  obtain ⟨hm, hg⟩ := hl.leases run lease hr
  obtain ⟨hrun, hgrant⟩ := h run lease hm
  exact ⟨hrun, hg.trans hgrant⟩

theorem closeRun_lessens (m : HostAccessManager) (runId : String) :
    Lessens m (m.closeRun runId) := by
  unfold closeRun
  cases hm : m.leases.get? runId with
  | none => exact Lessens.refl m
  | some lease =>
    refine ⟨Or.inl rfl, ?_, fun h => h⟩
    intro run l hl
    have hl' : (m.leases.erase runId).get? run = some l := hl
    rw [Dict.get?_erase] at hl'
    by_cases hr : run = runId
    · rw [if_pos hr] at hl'
      cases hl'
    · rw [if_neg hr] at hl'
      exact ⟨hl', rfl⟩

theorem closeRun_get? (m : HostAccessManager) (runId run : String) :
    (m.closeRun runId).leases.get? run = if run = runId then none else m.leases.get? run := by
  unfold closeRun
  cases hm : m.leases.get? runId with
  | none =>
    by_cases hr : run = runId
    · rw [if_pos hr, hr, hm]
    · rw [if_neg hr]
  | some lease => exact Dict.get?_erase _ _ _

structure SameButLeases (m t : HostAccessManager) : Prop where
  pairing : t.pairing = m.pairing
  grant : t.grant = m.grant
  closed : t.closed = m.closed
  file : t.file = m.file

theorem closeRun_same (m : HostAccessManager) (runId : String) :
    SameButLeases m (m.closeRun runId) := by
  unfold closeRun
  cases m.leases.get? runId with
  | none => exact ⟨rfl, rfl, rfl, rfl⟩
  | some lease => exact ⟨rfl, rfl, rfl, rfl⟩

/-- The loop over the table closes every lease and never raises. -/
theorem closeRuns_spec (m : HostAccessManager) :
    Triple (fun s => s = m) closeRuns
      (fun _ t => SameButLeases m t ∧ ∀ run, t.leases.get? run = none) (fun _ _ => False) := by
  intro s hs
  subst hs
  unfold closeRuns
  rw [bind_read_run]
  let J (done : List String) (t : HostAccessManager) : Prop :=
    SameButLeases s t ∧ ∀ run, t.leases.get? run = if run ∈ done then none else s.leases.get? run
  let body (runId : String) : Action HostAccessManager Fault Unit := modify (closeRun runId)
  have hloop : Triple (J []) (forEach s.leases.keys body) (fun _ => J s.leases.keys)
      (fun _ _ => False) := by
    refine Triple.forEach fun done x rest _ => Triple.modify ?_
    intro t ht
    have hx := closeRun_same t x
    refine ⟨⟨hx.pairing.trans ht.1.pairing, hx.grant.trans ht.1.grant,
      hx.closed.trans ht.1.closed, hx.file.trans ht.1.file⟩, ?_⟩
    intro run
    rw [closeRun_get?, ht.2 run]
    by_cases hr : run = x
    · simp [hr]
    · simp [hr]
  refine Triple.weaken (R := J []) hloop (fun _ h => h) ?_ (fun _ _ h => h) s
    ⟨⟨rfl, rfl, rfl, rfl⟩, fun run => by simp⟩
  intro _ t ht
  refine ⟨ht.1, ?_⟩
  intro run
  rw [ht.2 run]
  split
  · rfl
  rename_i hk
  cases hg : s.leases.get? run with
  | none => rfl
  | some lease => exact absurd ((s.leases.mem_keys_iff run).mpr ⟨lease, hg⟩) hk

/-- A change of the directory that raised was made only if the disk says so. -/
theorem onDisk_spec (disk : Disk) (change : HostAccessManager → HostAccessManager)
    (m : HostAccessManager) :
    Triple (fun s => s = m) (onDisk disk change) (fun _ t => t = change m)
      (fun e t =>
        (e = .osError ∧ (t = m ∨ (disk = .failed true ∧ t = change m))) ∨
        (e = .died ∧ (t = m ∨ (disk = .died true ∧ t = change m)))) := by
  intro s hs
  subst hs
  cases disk with
  | done =>
    refine ⟨?_, fun e t he => by cases he⟩
    intro a t ht
    cases ht
    rfl
  | failed effective =>
    cases effective with
    | false =>
      refine ⟨fun a t ht => (by cases ht), ?_⟩
      intro e t he
      cases he
      exact Or.inl ⟨rfl, Or.inl rfl⟩
    | true =>
      refine ⟨fun a t ht => (by cases ht), ?_⟩
      intro e t he
      cases he
      exact Or.inl ⟨rfl, Or.inr ⟨rfl, rfl⟩⟩
  | died effective =>
    cases effective with
    | false =>
      refine ⟨fun a t ht => (by cases ht), ?_⟩
      intro e t he
      cases he
      exact Or.inr ⟨rfl, Or.inl rfl⟩
    | true =>
      refine ⟨fun a t ht => (by cases ht), ?_⟩
      intro e t he
      cases he
      exact Or.inr ⟨rfl, Or.inr ⟨rfl, rfl⟩⟩

theorem onDisk_keeps (disk : Disk) {change : HostAccessManager → HostAccessManager}
    {P : HostAccessManager → Prop} (h : P m) (hchange : P (change m)) :
    Triple (fun s => s = m) (onDisk disk change) (fun _ t => t = change m)
      (fun e t => (e = .osError ∨ e = .died) ∧ P t) := by
  refine (onDisk_spec disk change m).raises ?_
  intro e t ht
  rcases ht with ⟨he, ht⟩ | ⟨he, ht⟩
  · refine ⟨Or.inl he, ?_⟩
    rcases ht with ht | ⟨_, ht⟩
    · exact ht ▸ h
    · exact ht ▸ hchange
  · refine ⟨Or.inr he, ?_⟩
    rcases ht with ht | ⟨_, ht⟩
    · exact ht ▸ h
    · exact ht ▸ hchange

/-- `_revoke_locked`: the memory is cleared whatever happens, and the file is unless it
raises. -/
theorem revokeLocked_spec (w : Weather) (m : HostAccessManager) :
    Triple (fun s => s = m) (revokeLocked w)
      (fun _ t => t.Cleared ∧ t.file.restores = false ∧ t.pairing = m.pairing)
      (fun e t => (e = unsaved ∨ e = .died) ∧ t.Cleared ∧
        (t.file.restores = true → m.file.restores = true)) := by
  unfold revokeLocked
  refine Triple.bind (Q := fun _ t => t = m.setGrant none)
    (Triple.modify fun s hs => by rw [hs]) fun _ => ?_
  refine Triple.bind (Triple.weaken (closeRuns_spec (m.setGrant none)) (fun _ h => h)
    (fun _ _ h => h) (fun _ _ h => h.elim)) fun _ => ?_
  intro t ht
  obtain ⟨hsame, hleases⟩ := ht
  have hgrant : t.grant = none := hsame.grant
  have hfile : t.file = m.file := hsame.file
  have hpairing : t.pairing = m.pairing := hsame.pairing
  let Safe (u : HostAccessManager) : Prop :=
    u.Cleared ∧ (u.file.restores = true → m.file.restores = true)
  have hstart : Safe t := ⟨⟨hgrant, hleases⟩, fun h => hfile ▸ h⟩
  have hsaved : Safe (t.setFile (.saved t.pairing t.grant)) := by
    refine ⟨⟨hgrant, hleases⟩, ?_⟩
    intro h
    have hno : (t.setFile (.saved t.pairing t.grant)).file.restores = false := by
      show (File.saved t.pairing t.grant).restores = false
      rw [hgrant]
      rfl
    rw [hno] at h
    cases h
  refine Triple.attempt (F := fun e u => (e = .osError ∨ e = .died) ∧ Safe u ∧
    u.pairing = m.pairing) ?_ ?_ t rfl
  · refine Triple.weaken (onDisk_keeps w.revoking
      (P := fun u => Safe u ∧ u.pairing = m.pairing) ⟨hstart, hpairing⟩ ⟨hsaved, hpairing⟩)
        (fun _ h => h.symm) ?_ ?_
    · intro _ u hu
      subst hu
      refine ⟨hsaved.1, ?_, hpairing⟩
      show (File.saved t.pairing t.grant).restores = false
      rw [hgrant]
      rfl
    · intro e u hu
      exact hu
  · intro e
    cases e with
    | osError =>
      intro u hu
      obtain ⟨_, hu, hp⟩ := hu
      refine Triple.attempt (P := fun v => v = u) (F := fun e v =>
        (e = .osError ∨ e = .died) ∧ Safe v) ?_ ?_ u rfl
      · refine Triple.weaken (onDisk_keeps w.unlinking (P := Safe) hu
          ⟨⟨hu.1.grant, hu.1.leases⟩, fun h => by cases h⟩) (fun _ h => h) ?_ ?_
        · intro _ v hv
          subst hv
          exact ⟨⟨hu.1.grant, hu.1.leases⟩, rfl, hp⟩
        · intro e v hv
          exact hv
      · intro e
        cases e with
        | osError => exact Triple.raise fun v hv => ⟨Or.inl rfl, hv.2.1, hv.2.2⟩
        | died => exact Triple.raise fun v hv => ⟨Or.inr rfl, hv.2.1, hv.2.2⟩
        | hostAccess detail =>
          intro v hv
          rcases hv.1 with he | he <;> cases he
    | died => exact Triple.raise fun u hu => ⟨Or.inr rfl, hu.2.1.1, hu.2.1.2⟩
    | hostAccess detail =>
      intro u hu
      rcases hu.1 with he | he <;> cases he

theorem revokeLocked_lessens (w : Weather) (m : HostAccessManager) :
    Triple (Lessens m) (revokeLocked w) (fun _ t => Lessens m t ∧ t.Cleared)
      (fun e t => Lessens m t ∧ (e = unsaved ∨ e = .died) ∧ t.Cleared) := by
  intro s hs
  refine Triple.weaken (revokeLocked_spec w s) (fun _ h => h) ?_ ?_ s rfl
  · intro _ t ht
    exact ⟨hs.trans (ht.1.lessens fun h => by rw [ht.2.1] at h; cases h), ht.1⟩
  · intro e t ht
    exact ⟨hs.trans (ht.2.1.lessens ht.2.2), ht.1, ht.2.1⟩

theorem saveLocked_lessens (disk : Disk) (m : HostAccessManager) :
    Triple (fun t => Lessens m t ∧ t.Cleared) (saveLocked disk) (fun _ t => Lessens m t)
      (fun _ t => Lessens m t) := by
  intro t ht
  obtain ⟨hl, hc⟩ := ht
  have hsaved : Lessens t (t.setFile (.saved t.pairing t.grant)) := by
    refine Cleared.lessens ⟨hc.grant, hc.leases⟩ ?_
    intro h
    have hno : (File.saved t.pairing t.grant).restores = false := by
      rw [hc.grant]
      rfl
    exact absurd (hno.symm.trans h) Bool.false_ne_true
  have hsave := @onDisk_keeps t disk (fun m => m.setFile (.saved m.pairing m.grant))
    (Lessens m) hl (hl.trans hsaved)
  refine hsave.weaken (fun _ h => h) ?_ (fun e u hu => hu.2) t rfl
  intro _ u hu
  subst hu
  exact hl.trans hsaved

theorem pair_lessens (pairing : HostPairing) (reply : Option StatusReply) (w : Weather)
    (m : HostAccessManager) : Keeps (Lessens m) (pair pairing reply w) := by
  unfold pair
  refine Keeps.bind_lift fun _ _ => Keeps.bind Keeps.read fun current => ?_
  split
  · refine Triple.bind ((revokeLocked_lessens w m).raises (fun _ _ h => h.1)) fun _ => ?_
    refine Triple.bind (Q := fun _ t => Lessens m t ∧ t.Cleared) (Triple.modify ?_) fun _ =>
      saveLocked_lessens w.saving m
    intro t ht
    exact ⟨⟨ht.1.grant, ht.1.leases, ht.1.file⟩, ⟨ht.2.grant, ht.2.leases⟩⟩
  · exact Keeps.pure

theorem status_lessens (pairing : HostPairing) (reply : Option StatusReply) (w : Weather)
    (m : HostAccessManager) :
    Triple (Lessens m) (status pairing reply w) (fun _ t => Lessens m t)
      (fun e t => Lessens m t ∧ (e = unsaved ∨ e = .died) ∧ t.Cleared) := by
  have hrevoke : Triple (Lessens m) (revokeLocked w) (fun _ t => Lessens m t)
      (fun e t => Lessens m t ∧ (e = unsaved ∨ e = .died) ∧ t.Cleared) :=
    (revokeLocked_lessens w m).returns (fun _ _ h => h.1)
  unfold status
  refine Triple.bind (Triple.read (Q := fun _ => Lessens m) fun _ h => h) fun s => ?_
  cases workerStatus pairing reply with
  | error e =>
    dsimp only
    split
    · exact Triple.bind hrevoke fun _ => Triple.pure fun _ h => h
    · exact Triple.pure fun _ h => h
  | ok found =>
    have hgrant : Triple (Lessens m) (do
        let grant ← read fun m : HostAccessManager => m.grant
        pure (⟨"ready", grant.isSome, grant.map Grant.grantId⟩ : Status))
        (fun _ t => Lessens m t)
        (fun e t => Lessens m t ∧ (e = unsaved ∨ e = Fault.died) ∧ t.Cleared) :=
      Triple.bind (Triple.read (Q := fun _ => Lessens m) fun _ h => h) fun _ =>
        Triple.pure fun _ h => h
    dsimp only
    split
    · exact Triple.pure fun _ h => h
    split
    · exact Triple.bind hrevoke fun _ => hgrant
    · exact hgrant

theorem close_lessens (m : HostAccessManager) : Keeps (Lessens m) close := by
  intro s hs
  refine Triple.bind (P := fun t => t = s) (Q := fun _ t => t = s.setClosed)
    (Triple.modify fun t ht => by rw [ht]) (fun _ => ?_) s rfl
  refine Triple.weaken (closeRuns_spec s.setClosed) (fun _ h => h) ?_ fun _ _ h => h.elim
  intro _ t ht
  refine hs.trans ⟨Or.inl ht.1.grant, ?_, fun h => ?_⟩
  · intro run lease hl
    rw [ht.2 run] at hl
    cases hl
  · rw [ht.1.file] at h
    exact h

theorem revoke_spec (w : Weather) (m : HostAccessManager) :
    Triple (fun s => s = m) (revoke w) (fun _ t => t.Cleared ∧ t.file.restores = false)
      (fun e t => (e = unsaved ∨ e = .died) ∧ t.Cleared ∧
        (t.file.restores = true → m.file.restores = true)) :=
  (revokeLocked_spec w m).returns (fun _ _ h => ⟨h.1, h.2.1⟩)

theorem invoke_same (lease : HostLease) (operation : HostCommand) (drawn : String) (now : Int)
    (m : HostAccessManager) : (invoke lease operation drawn now m).2 = m := by
  unfold invoke
  rw [bind_read_run]
  simp only [id_eq]
  cases m.active lease with
  | false => rfl
  | true => rfl

theorem workerStatus_ne_died {pairing : HostPairing} {reply : Option StatusReply} {e : Fault}
    (h : workerStatus pairing reply = .error e) : e ≠ .died ∧ e ≠ unsaved := by
  unfold workerStatus at h
  split at h
  · cases h
    decide
  split at h
  · cases h
  · cases h
    decide

section

variable {pairing : HostPairing} {scope drawn : String} {reply : Option StatusReply} {o : Weather}

theorem enable_refused (h : m.refuses pairing scope reply = true) :
    ∃ e, e ≠ .died ∧ enable pairing scope reply drawn o m = (.error e, m) := by
  unfold refuses at h
  unfold enable
  cases hw : workerStatus pairing reply with
  | error e => exact ⟨e, (workerStatus_ne_died hw).1, rfl⟩
  | ok found =>
    rw [hw] at h
    refine ⟨.hostAccess "The host access warning changed. Read it again.",
      fun he => (by cases he), ?_⟩
    rw [bind_run, lift_run]
    dsimp only at h ⊢
    rw [bind_read_run, bind_run]
    simp only [id_eq]
    rw [h]
    rfl

/-- What an `enable` that raises after it revoked leaves behind. -/
structure Unconsented (m : HostAccessManager) (o : Weather) (e : Fault)
    (t : HostAccessManager) : Prop where
  died : e = .died → o.saving = .died true ∨ (t.file.restores = true → m.file.restores = true)
  cleared : e ≠ .died → t.Cleared
  file : e ≠ .died → o.saving ≠ .failed true →
    t.file.restores = true → m.file.restores = true
  saved : e ≠ .died → e ≠ unsaved → o.saving ≠ .failed true → t.file.restores = false

theorem saveConsent_spec (disk : Disk) (hleases : ∀ run, m.leases.get? run = none)
    (hfile : m.file.restores = false) :
    Triple (fun s => s = m) (saveConsent disk)
      (fun _ t => t.grant = m.grant ∧ ∀ run, t.leases.get? run = none)
      (fun e t => (e = .died ∧ (disk = .died true ∨ t.file.restores = false)) ∨
        (e ≠ .died ∧ t.Cleared ∧ (disk = .failed true ∨ t.file.restores = false))) := by
  unfold saveConsent
  refine Triple.attempt
    ((onDisk_spec disk (fun m => m.setFile (.saved m.pairing m.grant)) m).returns ?_) ?_
  · intro _ t ht
    subst ht
    exact ⟨rfl, hleases⟩
  intro e
  cases e with
  | died =>
    refine Triple.raise ?_
    intro t ht
    rcases ht with ⟨he, _⟩ | ⟨_, ht | ⟨hd, _⟩⟩
    · cases he
    · exact Or.inl ⟨rfl, Or.inr (ht ▸ hfile)⟩
    · exact Or.inl ⟨rfl, Or.inl hd⟩
  | osError =>
    refine Triple.bind (Q := fun _ t => t.Cleared ∧
      (disk = .failed true ∨ t.file.restores = false)) (Triple.modify ?_) fun _ => ?_
    · intro t ht
      rcases ht with ⟨_, ht | ⟨hd, ht⟩⟩ | ⟨he, _⟩
      · subst ht
        exact ⟨⟨rfl, hleases⟩, Or.inr hfile⟩
      · subst ht
        exact ⟨⟨rfl, hleases⟩, Or.inl hd⟩
      · cases he
    · exact Triple.raise fun t ht => Or.inr ⟨fun he => (by cases he), ht⟩
  | hostAccess detail =>
    intro t ht
    rcases ht with ⟨he, _⟩ | ⟨he, _⟩ <;> cases he

theorem enable_spec (h : m.refuses pairing scope reply = false) :
    Triple (fun s => s = m) (enable pairing scope reply drawn o)
      (fun _ t => t.grant = some ⟨drawn, scope⟩ ∧ ∀ run, t.leases.get? run = none)
      (fun e t => Unconsented m o e t) := by
  unfold refuses at h
  unfold enable
  cases hw : workerStatus pairing reply with
  | error e =>
    rw [hw] at h
    cases h
  | ok found =>
    rw [hw] at h
    intro s hs
    subst hs
    rw [bind_run, lift_run]
    dsimp only at h ⊢
    rw [bind_read_run]
    simp only [id_eq]
    rw [h]
    refine Triple.bind_require_of (P := fun u => u = s) rfl ?_ s rfl
    refine Triple.bind (Triple.weaken (revokeLocked_spec o s) (fun _ h => h) (fun _ _ h => h)
      ?_) fun _ => ?_
    · intro e t ht
      refine ⟨fun _ => Or.inr ht.2.2, fun _ => ht.2.1, fun _ _ => ht.2.2, ?_⟩
      intro hd hu
      rcases ht.1 with he | he
      · exact absurd he hu
      · exact absurd he hd
    intro t ht
    obtain ⟨hc, hf, hp⟩ := ht
    refine Triple.bind (P := fun u => u = t)
      (Q := fun _ u => u = t.setGrant (some ⟨drawn, scope⟩))
      (Triple.modify fun u hu => by rw [hu]) (fun _ => ?_) t rfl
    refine (saveConsent_spec (m := t.setGrant (some ⟨drawn, scope⟩)) o.saving hc.leases
      hf).raises ?_
    intro e u hu
    rcases hu with ⟨he, hu⟩ | ⟨he, hcleared, hu⟩
    · refine ⟨fun _ => ?_, fun hd => absurd he hd, fun hd => absurd he hd,
        fun hd => absurd he hd⟩
      rcases hu with hd | hr
      · exact Or.inl hd
      · exact Or.inr fun hr' => absurd (hr.symm.trans hr') Bool.false_ne_true
    have hfile : o.saving ≠ .failed true → u.file.restores = false := by
      intro hd
      rcases hu with hd' | hr
      · exact absurd hd' hd
      · exact hr
    refine ⟨fun hd => absurd hd he, fun _ => hcleared, ?_, fun _ _ hd => hfile hd⟩
    intro _ hd hr
    exact absurd ((hfile hd).symm.trans hr) Bool.false_ne_true

end

/-- `authorise` adds a lease under the current grant, after its checks, or changes nothing. -/
theorem authorise_spec (pairing : HostPairing) (runId grantId : String)
    (reply : Option StatusReply) (object : Nat) (m : HostAccessManager) :
    Triple (fun s => s = m) (authorise pairing runId grantId reply object)
      (fun lease t => t = m.setLease lease ∧
        m.grant = some ⟨lease.grantId, lease.scopeRevision⟩ ∧
        ∃ scope session, workerStatus pairing reply = .ok (scope, session) ∧
          m.grants pairing grantId scope = true)
      (fun e t => t = m ∧ e ≠ .died) := by
  unfold authorise
  cases hw : workerStatus pairing reply with
  | error e =>
    intro s hs
    refine ⟨fun a t ht => (by cases ht), ?_⟩
    intro e' t ht
    cases ht
    exact ⟨hs, (workerStatus_ne_died hw).1⟩
  | ok found =>
    refine Triple.bind_lift_of rfl ?_
    dsimp only
    refine Triple.bind (Q := fun a t => a = m ∧ t = m) (Triple.read fun s hs => ⟨hs, hs⟩) ?_
    intro s
    refine Triple.of_pure fun hs => ?_
    subst hs
    refine Triple.bind_require (fun t ht => ⟨ht, fun he => by cases he⟩) fun htest => ?_
    have hgrant : s.grant = some ⟨grantId, found.1⟩ := by
      unfold grants at htest
      rw [Bool.and_eq_true] at htest
      cases hg : s.grant with
      | none =>
        rw [hg] at htest
        cases htest.2
      | some g =>
        rw [hg] at htest
        obtain ⟨id, scope⟩ := g
        have hboth : id = grantId ∧ scope = found.1 := by simpa using htest.2
        rw [hboth.1, hboth.2]
    refine Triple.bind (Q := fun _ t => t = s.setLease
      ⟨runId, grantId, found.1, found.2, pairing, object⟩) ?_ fun _ => ?_
    · exact Triple.modify fun t ht => by rw [ht]
    · exact Triple.pure fun t ht => ⟨ht, hgrant, found.1, found.2, rfl, htest⟩

end HostAccessManager

/-! ## The invariant -/

/-- How the memory and the file agree with what happened. -/
structure Ledger (m : HostAccessManager) (drawn : List String) (trace : List Event) : Prop where
  held : m.Held
  ended : Withdrawn trace → m.grant = none ∧ m.file.restores = false
  unleased : Ended trace → ∀ run, m.leases.get? run = none
  blocked : Blocked trace → m.grant = none
  noGrant : Always (fun e past => ∀ g, e = .restarted (some g) → ¬ Ended past) trace
  leased : ∀ run lease, m.leases.get? run = some lease → ∃ g, .authorised lease (some g) ∈ trace
  issued : ∀ lease g, .authorised lease g ∈ trace →
    g = some ⟨lease.grantId, lease.scopeRevision⟩
  known : ∀ id, .enabled id ∈ trace → id ∈ drawn
  enabledOnce : ∀ id, trace.countP (Event.isEnabledAs id) ≤ 1

section

variable {m t : HostAccessManager} {drawn : List String} {trace : List Event}

theorem HostAccessManager.active_lease {lease : HostLease} (h : m.active lease = true) :
    m.leases.get? lease.runId = some lease := by
  unfold HostAccessManager.active at h
  rw [Bool.and_eq_true, Bool.and_eq_true] at h
  simpa using h.1.2

section

variable (h : Ledger m drawn trace)

include h

theorem Ledger.not_active (hgrant : m.grant = none)
    (lease : HostLease) : m.active lease = false := by
  cases ha : m.active lease with
  | false => rfl
  | true =>
    obtain ⟨_, hg⟩ := h.held _ _ (HostAccessManager.active_lease ha)
    rw [hgrant] at hg
    cases hg

theorem Ledger.lessens (hl : HostAccessManager.Lessens m t) :
    Ledger t drawn trace where
  held := h.held.lessens hl
  unleased he run := by
    cases hr : t.leases.get? run with
    | none => rfl
    | some lease => exact absurd ((h.unleased he run).symm.trans (hl.leases run lease hr).1) nofun
  ended he := by
    obtain ⟨hg, hf⟩ := h.ended he
    refine ⟨?_, ?_⟩
    · cases hl.grant with
      | inl hs => exact hs.trans hg
      | inr hn => exact hn
    · cases hr : t.file.restores with
      | false => rfl
      | true => exact absurd (hf.symm.trans (hl.file hr)) Bool.false_ne_true
  blocked hb := by
    cases hl.grant with
    | inl hs => exact hs.trans (h.blocked hb)
    | inr hn => exact hn
  noGrant := h.noGrant
  leased run lease hr := h.leased run lease (hl.leases run lease hr).1
  issued := h.issued
  known := h.known
  enabledOnce := h.enabledOnce

theorem Ledger.load (file : File) (cancellations : List HostLease)
    (hfile : Withdrawn trace → file.restores = false) :
    Ledger (.load file false cancellations) drawn trace where
  held run lease hr := by cases hr
  unleased _ _ := rfl
  ended he := ⟨rfl, hfile he⟩
  blocked _ := rfl
  noGrant := h.noGrant
  leased run lease hr := by cases hr
  issued := h.issued
  known := h.known
  enabledOnce := h.enabledOnce

theorem Ledger.record (e : Event) (hends : e.ends = true → m.grant = none ∧ m.file.restores = false)
    (hblocks : e.blocks = true → m.grant = none) (henabled : ∀ id, e ≠ .enabled id)
    (hauthorised : ∀ lease g, e ≠ .authorised lease g) (hrestarted : ∀ g, e ≠ .restarted g) :
    Ledger m drawn (e :: trace) where
  held := h.held
  unleased he := by
    rcases ended_cons he with he | he
    · exact h.held.leases_eq_none (hends he).1
    · exact h.unleased he
  ended he := by
    rcases (since_cons _ _ _ _).mp he with he | ⟨_, he⟩
    · exact hends he
    · exact h.ended he
  blocked hb := by
    rcases (since_cons _ _ _ _).mp hb with hb | ⟨_, hb⟩
    · exact hblocks hb
    · exact h.blocked hb
  noGrant := ⟨fun g he => absurd he (hrestarted _), h.noGrant⟩
  leased run lease hr := by
    obtain ⟨g, hg⟩ := h.leased run lease hr
    exact ⟨g, List.mem_cons_of_mem e hg⟩
  issued lease g hm := by
    rcases List.mem_cons.mp hm with he | hm
    · exact absurd he.symm (hauthorised lease g)
    · exact h.issued lease g hm
  known id hm := by
    rcases List.mem_cons.mp hm with he | hm
    · exact absurd he.symm (henabled id)
    · exact h.known id hm
  enabledOnce id := by
    have hno : Event.isEnabledAs id e = false := by
      cases e with
      | enabled g => exact absurd rfl (henabled g)
      | _ => rfl
    rw [List.countP_cons, hno]
    exact h.enabledOnce id

end

theorem not_withdrawn_enabled (id : String) (trace : List Event) :
    ¬ Withdrawn (.enabled id :: trace) := by
  intro h
  rcases (since_cons _ _ _ _).mp h with h | ⟨h, _⟩ <;> cases h

theorem not_blocked_of_renews {e : Event} (he : e.blocks = false) (hr : e.renews = true)
    (trace : List Event) : ¬ Blocked (e :: trace) := by
  intro h
  rcases (since_cons _ _ _ _).mp h with h | ⟨h, _⟩
  · exact Bool.false_ne_true (he.symm.trans h)
  · exact Bool.false_ne_true (h.symm.trans hr)

theorem Ledger.enabled (h : Ledger m drawn trace) {id : String} (hid : id ∉ drawn)
    (hleases : ∀ run, t.leases.get? run = none) :
    Ledger t (id :: drawn) (.enabled id :: trace) where
  held run lease hr := by
    rw [hleases run] at hr
    cases hr
  unleased _ := hleases
  ended he := absurd he (not_withdrawn_enabled id trace)
  blocked hb := absurd hb (not_blocked_of_renews rfl rfl trace)
  noGrant := ⟨fun g he => (by cases he), h.noGrant⟩
  leased run lease hr := by
    rw [hleases run] at hr
    cases hr
  issued lease g hm := by
    rcases List.mem_cons.mp hm with he | hm
    · cases he
    · exact h.issued lease g hm
  known id' hm := by
    rcases List.mem_cons.mp hm with he | hm
    · cases he
      exact List.mem_cons_self
    · exact List.mem_cons_of_mem id (h.known id' hm)
  enabledOnce id' := by
    rw [List.countP_cons]
    by_cases hid' : id = id'
    · have hzero : trace.countP (Event.isEnabledAs id') = 0 := by
        rw [List.countP_eq_zero]
        intro e he hs
        cases e with
        | enabled g =>
          have hg : g = id' := by simpa [Event.isEnabledAs] using hs
          exact hid (hid' ▸ hg ▸ h.known g he)
        | _ => cases hs
      rw [hzero]
      split <;> omega
    · have hno : Event.isEnabledAs id' (.enabled id) = false := by
        simpa [Event.isEnabledAs] using hid'
      rw [hno]
      exact h.enabledOnce id'

theorem Ledger.authorised (h : Ledger m drawn trace) {lease : HostLease} (hopen : ¬ Ended trace)
    (hgrant : m.grant = some ⟨lease.grantId, lease.scopeRevision⟩) :
    Ledger (m.setLease lease) drawn (.authorised lease m.grant :: trace) where
  held run l hr := by
    have hr' : (m.leases.set lease.runId lease).get? run = some l := hr
    rw [Dict.get?_set] at hr'
    by_cases hrun : run = lease.runId
    · rw [if_pos hrun] at hr'
      cases hr'
      exact ⟨hrun.symm, hgrant⟩
    · rw [if_neg hrun] at hr'
      exact h.held run l hr'
  unleased he := by
    rcases ended_cons he with he | he
    · cases he
    · exact absurd he hopen
  ended he := by
    rcases (since_cons _ _ _ _).mp he with he | ⟨_, he⟩
    · cases he
    · exact h.ended he
  blocked hb := by
    rcases (since_cons _ _ _ _).mp hb with hb | ⟨_, hb⟩
    · cases hb
    · exact h.blocked hb
  noGrant := ⟨fun g he => (by cases he), h.noGrant⟩
  leased run l hr := by
    have hr' : (m.leases.set lease.runId lease).get? run = some l := hr
    rw [Dict.get?_set] at hr'
    by_cases hrun : run = lease.runId
    · rw [if_pos hrun] at hr'
      cases hr'
      rw [hgrant]
      exact ⟨_, List.mem_cons_self⟩
    · rw [if_neg hrun] at hr'
      obtain ⟨g, hg⟩ := h.leased run l hr'
      exact ⟨g, List.mem_cons_of_mem _ hg⟩
  issued l g hm := by
    rcases List.mem_cons.mp hm with he | hm
    · cases he
      exact hgrant
    · exact h.issued l g hm
  known id hm := by
    rcases List.mem_cons.mp hm with he | hm
    · cases he
    · exact h.known id hm
  enabledOnce id := by
    rw [List.countP_cons]
    exact h.enabledOnce id

/-- A new process over the file that the last one left. -/
theorem Ledger.restarted (h : Ledger m drawn trace) (opened : Bool) (cancellations : List HostLease)
    (hfile : Withdrawn trace → m.file.restores = false)
    (hended : Ended trace → m.file.restores = false) :
    Ledger (.load m.file opened cancellations) drawn
      (.restarted (HostAccessManager.load m.file opened cancellations).grant :: trace) where
  held run lease hr := by cases hr
  unleased _ _ := rfl
  ended he := by
    rcases (since_cons _ _ _ _).mp he with he | ⟨_, he⟩
    · cases he
    have hf := hfile he
    refine ⟨?_, hf⟩
    cases opened with
    | false => rfl
    | true =>
      show m.file.load.2 = none
      cases hg : m.file.load.2 with
      | none => rfl
      | some g =>
        unfold File.restores at hf
        rw [hg] at hf
        cases hf
  blocked hb := absurd hb (not_blocked_of_renews rfl rfl trace)
  noGrant := by
    refine ⟨?_, h.noGrant⟩
    intro g he hnow
    have hf := hended hnow
    cases opened with
    | false => cases he
    | true =>
      have hg : m.file.load.2 = some g := Event.restarted.inj he
      unfold File.restores at hf
      rw [hg] at hf
      cases hf
  leased run lease hr := by cases hr
  issued lease g hm := by
    rcases List.mem_cons.mp hm with he | hm
    · cases he
    · exact h.issued lease g hm
  known id hm := by
    rcases List.mem_cons.mp hm with he | hm
    · cases he
    · exact h.known id hm
  enabledOnce id := by
    rw [List.countP_cons]
    exact h.enabledOnce id

end

namespace World

structure Inv (w : World) : Prop where
  ledger : Ledger w.manager w.drawn w.trace
  worker : w.worker.Inv

theorem Inv.final {w : World} (h : w.Inv) : w.RevocationFinal where
  noLease he lease := by
    cases ha : w.manager.active lease with
    | false => rfl
    | true =>
      have hlease := HostAccessManager.active_lease ha
      rw [h.ledger.unleased he] at hlease
      cases hlease
  noGrant := h.ledger.noGrant
  blocked hb := h.ledger.not_active (h.ledger.blocked hb)
  authorised lease ha := h.ledger.leased _ lease (HostAccessManager.active_lease ha)
  granted lease g hm ha := by
    obtain ⟨_, hg⟩ := h.ledger.held _ lease (HostAccessManager.active_lease ha)
    rw [h.ledger.issued lease g hm]
    exact hg
  enabledOnce := h.ledger.enabledOnce
  worker := h.worker.toContained

theorem inv_initial (file : File) (sessionId scopeRevision : String) :
    (initial file sessionId scopeRevision).Inv where
  ledger := {
    held := fun run lease hr => by cases hr
    unleased := fun he => by cases he
    ended := fun he => by cases he
    blocked := fun hb => by cases hb
    noGrant := always_nil
    leased := fun run lease hr => by cases hr
    issued := fun lease g hm => by cases hm
    known := fun id hm => by cases hm
    enabledOnce := fun id => Nat.zero_le _ }
  worker := HostWorker.inv_initial sessionId scopeRevision

section

variable {w t : World}

theorem Inv.dies (h : w.Inv) {m : HostAccessManager}
    (hfile : Withdrawn w.trace → m.file.restores = false) :
    ({ w with manager := m }.dies m.file).Inv :=
  ⟨h.ledger.load m.file _ hfile, h.worker⟩

theorem Inv.lessens (h : w.Inv) {m : HostAccessManager}
    (hl : HostAccessManager.Lessens w.manager m) : ({ w with manager := m } : World).Inv :=
  ⟨h.ledger.lessens hl, h.worker⟩

theorem locked_inv {α : Type} {block : Action HostAccessManager Fault α}
    {ok : α → World → World} {raised : Fault → World → World}
    {Q : α → HostAccessManager → Prop} {E : Fault → HostAccessManager → Prop}
    (hblock : Triple (fun s => s = w.manager) block Q E)
    (hok : ∀ a m, Q a m → (ok a { w with manager := m }).Inv)
    (hraised : ∀ e m, E e m → e ≠ .died → (raised e { w with manager := m }).Inv)
    (hdied : ∀ m, E .died m → ({ w with manager := m }.dies m.file).Inv) :
    (w.locked block ok raised).Inv := by
  obtain ⟨hq, he⟩ := hblock w.manager rfl
  unfold locked
  cases hr : block w.manager with
  | mk r m =>
    cases r with
    | ok a => exact hok a m (hq a m hr)
    | error e =>
      have hE := he e m hr
      cases e with
      | died => exact hdied m hE
      | osError => exact hraised .osError m hE (fun h => by cases h)
      | hostAccess detail => exact hraised (.hostAccess detail) m hE (fun h => by cases h)

section

variable (h : w.Inv)

include h

theorem Inv.locked_lessens {α : Type} {block : Action HostAccessManager Fault α}
    {ok : α → World → World} {raised : Fault → World → World}
    (hblock : Keeps (HostAccessManager.Lessens w.manager) block)
    (hok : ∀ a t, t.Inv → (ok a t).Inv) (hraised : ∀ e t, t.Inv → (raised e t).Inv) :
    (w.locked block ok raised).Inv := by
  have hstart : ∀ s, s = w.manager → HostAccessManager.Lessens w.manager s := by
    intro s hs
    rw [hs]
    exact HostAccessManager.Lessens.refl _
  refine locked_inv (Triple.weaken hblock hstart (fun _ _ h => h) (fun _ _ h => h)) ?_ ?_ ?_
  · intro a m hl
    exact hok a _ (h.lessens hl)
  · intro e m hl _
    exact hraised e _ (h.lessens hl)
  · intro m hl
    exact h.dies fun he => ((h.lessens hl).ledger.ended he).2

theorem Inv.setCall (c : Nat) (call : Call) : (w.setCall c call).Inv :=
  ⟨h.ledger, h.worker⟩

theorem Inv.endCall (c : Nat) : (w.endCall c).Inv := ⟨h.ledger, h.worker⟩

theorem Inv.raiseEnable (c : Nat) (e : Fault) (hgrant : w.manager.grant = none)
    (hfile : e ≠ unsaved → w.manager.file.restores = false) : (w.raiseEnable c e).Inv := by
  refine ⟨h.ledger.record _ ?_ (fun _ => hgrant) (fun id he => by cases he)
    (fun lease g he => by cases he) (fun g he => by cases he), h.worker⟩
  intro he
  refine ⟨hgrant, hfile ?_⟩
  simpa [Event.ends] using he

theorem Inv.returnStatus (c : Nat) (purpose : Purpose)
    (s : HostAccessManager.Status) : (w.returnStatus c purpose s).Inv := by
  unfold World.returnStatus
  cases purpose with
  | plain => exact h.endCall c
  | enabled grantId =>
    exact ⟨h.ledger.record _ (fun he => by cases he) (fun he => by cases he)
      (fun id he => by cases he) (fun lease g he => by cases he) (fun g he => by cases he),
      h.worker⟩
  | authorise runId grantId =>
    dsimp only
    split
    · exact h.endCall c
    cases grantId with
    | none => exact h.endCall c
    | some g => exact h.setCall c _

theorem Inv.proceed {c : Nat} (hn : w.proceed c = some t) : t.Inv := by
  unfold World.proceed at hn
  cases hc : w.calls.get? c with
  | none =>
    rw [hc] at hn
    cases hn
  | some call =>
    rw [hc] at hn
    cases call with
    | entering purpose =>
      dsimp only at hn
      cases hp : w.manager.pairing with
      | none =>
        rw [hp] at hn
        cases hn
        exact h.returnStatus c purpose _
      | some pairing =>
        rw [hp] at hn
        dsimp only at hn
        cases hn
        split
        · exact h.returnStatus c purpose _
        · exact h.setCall c _
    | selected runId grantId =>
      dsimp only at hn
      cases hp : w.manager.pairing with
      | none =>
        rw [hp] at hn
        cases hn
        exact h.endCall c
      | some pairing =>
        rw [hp] at hn
        cases hn
        exact h.setCall c _
    | status pairing purpose => cases hn
    | enable pairing scope => cases hn
    | authorise pairing runId grantId => cases hn

theorem Inv.answerStatus (c : Nat) (pairing : HostPairing) (purpose : Purpose)
    (reply : Option StatusReply) (o : Weather) :
    (w.locked (HostAccessManager.status pairing reply o) (fun s t => t.returnStatus c purpose s)
      fun e t => t.raiseStatus c purpose e).Inv := by
  have hstart : ∀ s, s = w.manager → HostAccessManager.Lessens w.manager s := by
    intro s hs
    rw [hs]
    exact HostAccessManager.Lessens.refl _
  refine locked_inv ((HostAccessManager.status_lessens pairing reply o w.manager).weaken hstart
    (fun _ _ h => h) (fun _ _ h => h)) ?_ ?_ ?_
  · intro s m hl
    exact (h.lessens hl).returnStatus c purpose s
  · intro e m hE hd
    have hm := h.lessens hE.1
    have hunsaved : e = unsaved := by
      rcases hE.2.1 with he | he
      · exact he
      · exact absurd he hd
    cases purpose with
    | plain => exact hm.endCall c
    | enabled grantId => exact hm.raiseEnable c e hE.2.2.grant fun hne => absurd hunsaved hne
    | authorise runId grantId => exact hm.endCall c
  · intro m hE
    exact h.dies fun he => ((h.lessens hE.1).ledger.ended he).2

theorem Inv.answerAuthorise (c : Nat) (pairing : HostPairing)
    (runId grantId : String) (reply : Option StatusReply)
    (hopen : ∀ scope session, HostAccessManager.workerStatus pairing reply = .ok (scope, session) →
      w.manager.grants pairing grantId scope = true → ¬ Renewing w.trace) :
    ({ w with objects := w.objects + 1 }.locked
      (HostAccessManager.authorise pairing runId grantId reply w.objects)
      (fun lease t => (t.endCall c).record (.authorised lease t.manager.grant))
      fun _ t => t.endCall c).Inv := by
  refine locked_inv (HostAccessManager.authorise_spec pairing runId grantId reply w.objects
    w.manager) ?_ ?_ ?_
  · intro lease m hm
    obtain ⟨hm, hg, scope, session, hready, hgrants⟩ := hm
    subst hm
    refine ⟨h.ledger.authorised (fun he => ?_) hg, h.worker⟩
    refine hopen scope session hready hgrants ⟨he, fun hw => ?_⟩
    rw [(h.ledger.ended hw).1] at hg
    cases hg
  · intro e m hm _
    obtain ⟨hm, _⟩ := hm
    subst hm
    exact ⟨h.ledger, h.worker⟩
  · intro m hm
    exact absurd rfl hm.2

end

theorem consentless_iff (w : World) :
    w.consentless = true ↔ w.manager.grant = none ∧ w.manager.file.restores = false := by
  simp [consentless]

theorem Ledger_drawn {m : HostAccessManager} {drawn : List String} {trace : List Event}
    (h : Ledger m drawn trace) (id : String) : Ledger m (id :: drawn) trace where
  held := h.held
  unleased := h.unleased
  ended := h.ended
  blocked := h.blocked
  noGrant := h.noGrant
  leased := h.leased
  issued := h.issued
  known id' hm := List.mem_cons_of_mem id (h.known id' hm)
  enabledOnce := h.enabledOnce

section

variable (h : w.Inv)

include h

theorem Inv.answerEnable (c : Nat) (pairing : HostPairing) (scope : String)
    (reply : Option StatusReply) (drawn : String) (o : Weather) (hdrawn : drawn ∉ w.drawn)
    (hrefused : w.manager.refuses pairing scope reply = true → w.consentless = true)
    (hsaving : w.manager.refuses pairing scope reply = false →
      o.saving ≠ .failed true ∧ (Withdrawn w.trace → o.saving ≠ .died true)) :
    ({ w with drawn := drawn :: w.drawn }.locked
      (HostAccessManager.enable pairing scope reply drawn o)
      (fun _ t => (t.setCall c (.entering (.enabled drawn))).record (.enabled drawn))
      fun e t => t.raiseEnable c e).Inv := by
  have hw : ({ w with drawn := drawn :: w.drawn } : World).Inv :=
    ⟨Ledger_drawn h.ledger drawn, h.worker⟩
  cases hr : w.manager.refuses pairing scope reply with
  | true =>
    obtain ⟨e, hd, he⟩ : ∃ e, e ≠ .died ∧
        HostAccessManager.enable pairing scope reply drawn o w.manager = (.error e, w.manager) :=
      HostAccessManager.enable_refused hr
    obtain ⟨hg, hf⟩ := w.consentless_iff.mp (hrefused hr)
    refine locked_inv (Q := fun _ _ => False) (E := fun e' m => e' ≠ .died ∧ m = w.manager)
      ?_ (fun _ _ h => h.elim) ?_ (fun m hm => absurd rfl hm.1)
    · intro s hs
      subst hs
      rw [he]
      refine ⟨fun a t ht => (by cases ht), ?_⟩
      intro e' t ht
      cases ht
      exact ⟨hd, rfl⟩
    · intro e' m hm _
      obtain ⟨_, hm⟩ := hm
      subst hm
      exact hw.raiseEnable c e' hg fun _ => hf
  | false =>
    obtain ⟨hfailed, hdied⟩ := hsaving hr
    have henable : Triple (fun s => s = w.manager)
        (HostAccessManager.enable pairing scope reply drawn o)
        (fun _ t => t.grant = some ⟨drawn, scope⟩ ∧ ∀ run, t.leases.get? run = none)
        (fun e t => HostAccessManager.Unconsented w.manager o e t) :=
      HostAccessManager.enable_spec hr
    refine locked_inv henable ?_ ?_ ?_
    · intro _ m hm
      exact ⟨h.ledger.enabled hdrawn hm.2, h.worker⟩
    · intro e m hm hd
      have hcleared := hm.cleared hd
      have hl := hcleared.lessens (hm.file hd hfailed)
      exact (hw.lessens hl).raiseEnable c e hcleared.grant fun hne => hm.saved hd hne hfailed
    · intro m hm
      refine hw.dies ?_
      intro he
      have hfile := (h.ledger.ended he).2
      rcases hm.died rfl with hs | hs
      · exact absurd hs (hdied he)
      cases hr : m.file.restores with
      | false => rfl
      | true => exact absurd (hfile.symm.trans (hs hr)) Bool.false_ne_true

theorem Inv.answer {c : Nat} {reply : Option StatusReply} {drawn : String}
    {o : Weather} (hc : w.Conclusive (.answer c reply drawn o) = true)
    (hn : w.answer c reply drawn o = some t) : t.Inv := by
  unfold World.answer at hn
  cases hcall : w.calls.get? c with
  | none =>
    rw [hcall] at hn
    cases hn
  | some call =>
    rw [hcall] at hn
    cases call with
    | status pairing purpose =>
      cases hn
      exact h.answerStatus c pairing purpose reply o
    | enable pairing scope =>
      dsimp only at hn
      rcases Option.ite_none_left_eq_some.mp hn with ⟨hnew, hn⟩
      cases hn
      have hdrawn : drawn ∉ w.drawn := by simpa using hnew
      simp only [Conclusive, hcall] at hc
      refine h.answerEnable c pairing scope reply drawn o hdrawn ?_ ?_
      · intro hr
        rw [if_pos hr] at hc
        exact hc
      · intro hr
        rw [if_neg (by rw [hr]; exact Bool.false_ne_true)] at hc
        simpa [imp_iff_not_or, or_comm] using hc
    | authorise pairing runId grantId =>
      cases hn
      refine h.answerAuthorise c pairing runId grantId reply fun scope session hready hgrants => ?_
      simp only [Conclusive, hcall, hready] at hc
      simpa [hgrants] using hc
    | entering purpose => cases hn
    | selected runId grantId => cases hn

theorem Inv.callEnable (c : Nat) (scope : String) (acknowledged : Bool)
    (hc : w.Conclusive (.callEnable c scope acknowledged) = true) :
    (w.callEnable c scope acknowledged).Inv := by
  have hrefused :
    w.consentless = true → ∀ detail, Inv (w.record (.enableRaised (.hostAccess detail))) := by
    intro hw detail
    obtain ⟨hg, hf⟩ := w.consentless_iff.mp hw
    exact ⟨h.ledger.record _ (fun _ => ⟨hg, hf⟩) (fun _ => hg) (fun id he => by cases he)
      (fun lease g he => by cases he) (fun g he => by cases he), h.worker⟩
  unfold World.callEnable
  cases acknowledged with
  | false => exact hrefused (by simpa [Conclusive] using hc) _
  | true =>
    cases hp : w.manager.pairing with
    | none => exact hrefused (by simpa [Conclusive, hp] using hc) _
    | some pairing => exact h.setCall c _

theorem Inv.nextRunning {s : Step} (hc : w.Conclusive s = true)
    (hn : w.nextRunning s = some t) : t.Inv := by
  cases s with
  | pair pairing reply o =>
    cases hn
    exact h.locked_lessens (HostAccessManager.pair_lessens pairing reply o _)
      (fun _ _ ht => ht) fun _ _ ht => ht
  | callStatus c =>
    rcases Option.ite_none_left_eq_some.mp hn with ⟨_, hn⟩
    cases hn
    exact h.setCall c _
  | callEnable c scope acknowledged =>
    rcases Option.ite_none_left_eq_some.mp hn with ⟨_, hn⟩
    cases hn
    exact h.callEnable c scope acknowledged hc
  | callAuthorise c runId grantId =>
    rcases Option.ite_none_left_eq_some.mp hn with ⟨_, hn⟩
    cases hn
    exact h.setCall c _
  | proceed c => exact h.proceed hn
  | answer c reply drawn o => exact h.answer hc hn
  | invoke lease operation drawn now =>
    cases hn
    have hkeep : Keeps (HostAccessManager.Lessens w.manager)
        (HostAccessManager.invoke lease operation drawn now) := by
      intro s hs
      have hsame := HostAccessManager.invoke_same lease operation drawn now s
      refine ⟨fun a u hu => ?_, fun e u hu => ?_⟩
      · rw [hu] at hsame
        have hus : u = s := hsame
        rw [hus]
        exact hs
      · rw [hu] at hsame
        have hus : u = s := hsame
        rw [hus]
        exact hs
    exact h.locked_lessens hkeep (fun _ _ ht => ⟨ht.ledger, ht.worker⟩) fun _ _ ht => ht
  | closeRun runId =>
    cases hn
    exact h.lessens (HostAccessManager.closeRun_lessens w.manager runId)
  | revoke o =>
    cases hn
    refine locked_inv (HostAccessManager.revoke_spec o w.manager) ?_ ?_ ?_
    · intro _ m hm
      have hl := hm.1.lessens (m := w.manager) fun hr =>
        absurd (hm.2.symm.trans hr) Bool.false_ne_true
      exact ⟨(h.lessens hl).ledger.record _ (fun _ => ⟨hm.1.grant, hm.2⟩)
        (fun _ => hm.1.grant) (fun id he => by cases he) (fun lease g he => by cases he)
        (fun g he => by cases he), h.worker⟩
    · intro e m hm _
      have hl := hm.2.1.lessens hm.2.2
      exact ⟨(h.lessens hl).ledger.record _ (fun he => by cases he)
        (fun _ => hm.2.1.grant) (fun id he => by cases he) (fun lease g he => by cases he)
        (fun g he => by cases he), h.worker⟩
    · intro m hm
      have hl := hm.2.1.lessens hm.2.2
      exact h.dies fun he => ((h.lessens hl).ledger.ended he).2
  | close =>
    cases hn
    exact h.locked_lessens (HostAccessManager.close_lessens _) (fun _ _ ht => ht)
      fun _ _ ht => ht
  | restart opened => cases hn
  | deliver i now now' spawned => cases hn
  | cancel i => cases hn
  | finish requestId => cases hn
  | closeWorker => cases hn

theorem Inv.nextOutside {s : Step} (hc : w.Conclusive s = true) (hn : w.nextOutside s = some t) :
    t.Inv := by
  cases s with
  | restart opened =>
    cases hn
    have hended : Ended w.trace → w.manager.file.restores = false := by
      intro he
      by_cases hw : Withdrawn w.trace
      · exact (h.ledger.ended hw).2
      · simpa [Conclusive, Renewing, he, hw] using hc
    exact ⟨h.ledger.restarted opened _ (fun hw => (h.ledger.ended hw).2) hended, h.worker⟩
  | deliver i now now' spawned =>
    simp only [World.nextOutside] at hn
    split at hn
    · cases hn
    rename_i invocation _
    cases hn
    exact ⟨h.ledger, (HostWorker.keeps_execute invocation now now' spawned).state h.worker⟩
  | cancel i =>
    simp only [World.nextOutside] at hn
    split at hn
    · cases hn
    rename_i lease _
    cases hn
    exact ⟨h.ledger, h.worker.cancelRoute lease.runId lease.workerSession⟩
  | finish requestId =>
    cases hn
    exact ⟨h.ledger, h.worker.finish requestId⟩
  | closeWorker =>
    cases hn
    exact ⟨h.ledger, h.worker.close⟩
  | pair pairing reply o => cases hn
  | callStatus c => cases hn
  | callEnable c scope acknowledged => cases hn
  | callAuthorise c runId grantId => cases hn
  | proceed c => cases hn
  | answer c reply drawn o => cases hn
  | invoke lease operation drawn now => cases hn
  | closeRun runId => cases hn
  | revoke o => cases hn
  | close => cases hn

theorem Inv.next {s : Step} (hc : w.Conclusive s = true) (hn : w.next s = some t) : t.Inv := by
  unfold World.next at hn
  split at hn
  · exact h.nextOutside hc hn
  · exact h.nextOutside hc hn
  · exact h.nextOutside hc hn
  · exact h.nextOutside hc hn
  · exact h.nextOutside hc hn
  · split at hn
    · exact h.nextRunning hc hn
    · cases hn

end

end

/-! ## Every run -/

/-- In a run in which no `enable` fails after its consent reached the file, nor refuses over
an earlier consent, and none that renews an ended consent is overtaken by a restart or an
`authorise`, revocation is final. -/
theorem run_revocationFinal (file : File) (sessionId scopeRevision : String)
    (steps : List Step) (w : World) (hmeets : Runs.Meets next (fun w s => w.Conclusive s = true)
      (initial file sessionId scopeRevision) steps)
    (hrun : Runs.exec next (initial file sessionId scopeRevision) steps = some w) :
    w.RevocationFinal := by
  have hinv : w.Inv := Runs.invariant_of_meets
    (fun _ _ _ h hc hn => Inv.next h hc hn) (inv_initial file sessionId scopeRevision) hmeets hrun
  exact hinv.final

def companion : HostPairing :=
  ⟨"172.30.33.4", 8767, "0123456789abcdef0123456789abcdef", "0123456789abcdef0123456789abcdef"⟩

def scope : String := "0123456789abcdef0123456789abcdef0123456789abcdef0123456789abcdef"

def session : String := "00000000000000000000000000000001"

def ready : Option StatusReply := some ⟨true, companion.companionId, scope, session⟩

def fine : Weather := ⟨.done, .done, .done⟩

def consent : Grant := ⟨"00000000000000000000000000000002", scope⟩

def revoking : List Step :=
  [.pair companion ready fine, .callEnable 0 scope true, .answer 0 ready consent.grantId fine,
    .proceed 0, .answer 0 ready "" fine, .callAuthorise 1 "run" (some consent.grantId),
    .proceed 1, .answer 1 ready "" fine, .proceed 1, .answer 1 ready "" fine,
    .invoke ⟨"run", consent.grantId, scope, session, companion, 0⟩ ⟨"uptime", "/", 60⟩ "request" 0,
    .deliver 0 1 2 true, .revoke ⟨.failed false, .done, .done⟩, .cancel 0, .deliver 0 1 2 true,
    .restart true]

theorem run_revoking :
    (Runs.exec next (initial .missing session scope) revoking).isSome = true ∧
      ∀ w, Runs.exec next (initial .missing session scope) revoking = some w →
        w.RevocationFinal :=
  ⟨by decide +kernel, fun w h =>
    run_revocationFinal .missing session scope revoking w (by decide +kernel) h⟩

/-- The consent reaches the file, the directory cannot be synced, and `enable` raises. -/
def lateFailure : List Step :=
  [.pair companion ready fine, .callEnable 0 scope true,
    .answer 0 ready consent.grantId ⟨.done, .done, .failed true⟩, .restart true]

theorem lateFailure_restores :
    ∃ w, Runs.exec next (initial .missing session scope) lateFailure = some w ∧
      ¬ w.RevocationFinal := by
  have htrace : (Runs.exec next (initial .missing session scope) lateFailure).map World.trace =
      some [.restarted (some consent),
        .enableRaised (.hostAccess "Host access consent could not be saved.")] := by
    decide +kernel
  obtain ⟨w, hw, htw⟩ := Option.map_eq_some_iff.mp htrace
  refine ⟨w, hw, ?_⟩
  intro h
  have hnone := h.noGrant
  rw [htw] at hnone
  exact hnone.1 consent rfl (by decide +kernel)

end World

end CodexBridge.Host
