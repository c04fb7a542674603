import CodexBridge.Accounts.Newest

/-! # No refreshed sign-in is lost

What each step of an operation and of a usage read does to the invariant, and from it what
whole runs keep.
-/

namespace CodexBridge.Accounts

namespace World

variable {w t : World}

/-! ## What an operation relies on -/

theorem Running.of_idle (ht : t.operation = none) : t.Running where
  alone hs := by
    unfold switching at hs
    rw [ht] at hs
    cases hs
  reading op raw hop := by
    rw [ht] at hop
    cases hop
  returning op previous hop := by
    rw [ht] at hop
    cases hop
  targeted op profile target hop := by
    rw [ht] at hop
    cases hop

variable {op : Operation}

theorem Running.of_operation (ht : t.operation = some op)
    (halone : t.switching = true → t.probe = none)
    (hreading : ∀ raw, op.raw = some raw → t.Reading raw)
    (hreturning : ∀ previous, op.previous = some previous → t.Returning previous)
    (htarget : ∀ profile target, op.target = some (profile, target) →
      ∃ a, target.account = some a ∧ t.registry.get? profile = some a) : t.Running where
  alone := halone
  reading op' raw hop hr := by
    rw [ht] at hop
    cases hop
    exact hreading raw hr
  returning op' previous hop hr := by
    rw [ht] at hop
    cases hop
    exact hreturning previous hr
  targeted op' profile target hop hr := by
    rw [ht] at hop
    cases hop
    exact htarget profile target hr

theorem Running.of_starting (ht : t.operation = some op)
    (hs : t.switching = false) (hraw : op.raw = none) (hprevious : op.previous = none)
    (htarget : op.target = none) : t.Running :=
  of_operation ht (fun h => nomatch hs.symm.trans h) (fun _ h => nomatch hraw.symm.trans h)
    (fun _ h => nomatch hprevious.symm.trans h) fun _ _ h => nomatch htarget.symm.trans h

theorem Running.of_reading {raw : Credential} (ht : t.operation = some op)
    (halone : t.switching = true → t.probe = none) (hraw : op.raw = some raw)
    (hreading : t.Reading raw) (hprevious : op.previous = none)
    (htarget : ∀ profile target, op.target = some (profile, target) →
      ∃ a, target.account = some a ∧ t.registry.get? profile = some a) : t.Running := by
  refine of_operation ht halone ?_ (fun _ h => nomatch hprevious.symm.trans h) htarget
  intro raw' h
  rw [hraw] at h
  cases h
  exact hreading

theorem Running.of_targeted (ht : t.operation = some op)
    (halone : t.switching = true → t.probe = none) (hraw : op.raw = none)
    (hprevious : op.previous = none)
    (htarget : ∀ profile target, op.target = some (profile, target) →
      ∃ a, target.account = some a ∧ t.registry.get? profile = some a) : t.Running :=
  of_operation ht halone (fun _ h => nomatch hraw.symm.trans h)
    (fun _ h => nomatch hprevious.symm.trans h) htarget

theorem Running.of_returning (ht : t.operation = some op)
    (halone : t.switching = true → t.probe = none) (hraw : op.raw = none)
    (hreturning : ∀ previous, op.previous = some previous → t.Returning previous)
    (htarget : op.target = none) : t.Running :=
  of_operation ht halone (fun _ h => nomatch hraw.symm.trans h) hreturning
    fun _ _ h => nomatch htarget.symm.trans h

theorem Core.reading_auth (h : w.Core) {a : String} {v : Nat}
    (ha : w.auth = some ⟨some a, v⟩) : w.Reading ⟨some a, v⟩ := by
  refine ⟨a, v, v, rfl, ha, Nat.le_refl v, ?_⟩
  intro p c held hp hc hacc
  exact (h.probing p c held hp hc).below a v hacc ha

theorem Inv.refresh (h : w.Inv) (hs : w.refresh = some t) : t.Inv := by
  unfold World.refresh at hs
  split at hs
  · rename_i a v ha
    rcases Runs.enabled hs with ⟨hv, hs⟩
    subst hv
    cases hs
    constructor
    · apply h.core.issue a
      intro c hc
      rw [ha] at hc
      cases hc
      rfl
    constructor
    · exact h.running.alone
    · intro op raw hop hr
      obtain ⟨b, v, v', hraw, hauth, hle, hprobe⟩ := h.running.reading op raw hop hr
      rw [ha] at hauth
      cases hauth
      exact ⟨a, v, w.newest a + 1, hraw, rfl, by omega, hprobe⟩
    · intro op previous hop hr b v hb
      obtain ⟨hle, hwhere⟩ := h.running.returning op previous hop hr b v hb
      refine ⟨Nat.le_trans hle (newest_le_issue w a b), ?_⟩
      cases hwhere with
      | inl hi => exact Or.inl hi
      | inr hun =>
        obtain ⟨hnew, hsw, hno⟩ := hun
        have hba : b ≠ a := fun he => hno (w.newest a) (he ▸ ha)
        refine Or.inr ⟨?_, hsw, ?_⟩
        · show v = (w.issue a).newest b
          rw [newest_issue, if_neg hba]
          exact hnew
        · intro v' hv'
          cases hv'
          exact hba rfl
    · exact h.running.targeted
  · cases hs

theorem Inv.signIn (h : w.Inv) {account : String} (hs : w.signIn account = some t) : t.Inv := by
  unfold World.signIn at hs
  rcases Runs.taken hs with ⟨hidle, rfl⟩
  constructor
  · apply h.core.issue account
    intro c hc
    rw [hidle.2] at hc
    cases hc
  · exact Running.of_idle hidle.1

theorem Inv.begin_ (h : w.Inv) (hs : w.begin_ op = some t)
    (hsw : (w.setOperation (some op)).switching = false) (hraw : op.raw = none)
    (hprevious : op.previous = none) (htarget : op.target = none) : t.Inv := by
  unfold World.begin_ at hs
  split at hs
  · cases hs
    exact ⟨h.core.mark _ _, Running.of_starting rfl hsw hraw hprevious htarget⟩
  · cases hs

theorem Inv.idle (h : w.Core) (active : Option String) :
    Inv { w with operation := none, activeProfile := active } :=
  ⟨h.mark _ _, Running.of_idle rfl⟩

section

variable (h : w.Inv)

include h

theorem Inv.toRestoring {op new : Operation} (hop : w.operation = some op)
    (hraw : new.raw = none) (hprevious : new.previous = op.previous) (htarget : new.target = none)
    (hsw : (w.setOperation (some new)).switching = w.switching) :
    (w.setOperation (some new)).Inv := by
  refine ⟨h.core.mark _ _, Running.of_returning rfl ?_ hraw ?_ htarget⟩
  · rw [hsw]
    exact h.running.alone
  intro previous hp a v ha
  rw [hprevious] at hp
  obtain ⟨hle, hwhere⟩ := h.running.returning op previous hop hp a v ha
  refine ⟨hle, ?_⟩
  rw [hsw]
  exact hwhere

theorem Inv.fail (hs : w.fail = some t) : t.Inv := by
  unfold World.fail at hs
  split at hs
  · rename_i hop
    cases hs
    refine h.toRestoring hop rfl rfl rfl ?_
    unfold switching
    rw [hop]
    rfl
  · rename_i hop
    cases hs
    refine h.toRestoring hop rfl rfl rfl ?_
    unfold switching
    rw [hop]
    rfl
  · cases hs
  · cases hs
  · cases hs
    exact Inv.idle h.core _
  · cases hs

theorem Inv.complete (hs : w.complete = some t) : t.Inv := by
  unfold World.complete at hs
  split at hs
  · rename_i hop
    split at hs
    · cases hs
      exact Inv.idle h.core _
    cases hs
    refine h.toRestoring hop rfl rfl rfl ?_
    unfold switching
    rw [hop]
    rfl
  · cases hs
    exact Inv.idle h.core _
  · cases hs

theorem Inv.readTarget (hs : w.readTarget = some t) : t.Inv := by
  unfold World.readTarget at hs
  split at hs
  · rename_i hprobe
    split at hs
    · rename_i target ht
      cases hs
      refine ⟨h.core.mark _ _, Running.of_targeted rfl (fun _ => hprobe) rfl rfl ?_⟩
      intro profile c hc
      cases hc
      obtain ⟨a, hreg, _, hacc⟩ := targetCredential_eq_some ht
      exact ⟨a, hacc, hreg⟩
    · cases hs
      exact Inv.idle h.core _
  · cases hs

theorem Inv.toTargeted {op new : Operation} (hop : w.operation = some op)
    (hsw : w.switching = true) (hraw : new.raw = none) (hprevious : new.previous = none)
    (htarget : new.target = op.target) : (w.setOperation (some new)).Inv := by
  refine ⟨h.core.mark _ _,
    Running.of_targeted rfl (fun _ => h.running.alone hsw) hraw hprevious ?_⟩
  intro profile target ht
  rw [htarget] at ht
  exact h.running.targeted op profile target hop ht

theorem Inv.readPrevious (hs : w.readPrevious = some t) : t.Inv := by
  unfold World.readPrevious at hs
  split at hs
  · rename_i hop
    have hsw : w.switching = true := by
      unfold switching
      rw [hop]
    split at hs
    · cases hs
      exact h.toTargeted hop hsw rfl rfl rfl
    · cases hs
      exact h.toTargeted hop hsw rfl rfl rfl
  · cases hs

theorem Inv.readCurrent (hs : w.readCurrent = some t) : t.Inv := by
  unfold World.readCurrent at hs
  split at hs
  · split at hs
    · rename_i a v ha
      cases hs
      refine ⟨h.core.mark _ _, Running.of_reading rfl ?_ rfl (h.core.reading_auth ha) rfl ?_⟩
      · intro hsw
        cases hsw
      · intro profile target ht
        cases ht
    · cases hs
      exact Inv.idle h.core _
  · rename_i hop
    have hsw : w.switching = true := by
      unfold switching
      rw [hop]
    split at hs
    · rename_i a v ha
      cases hs
      refine ⟨h.core.mark _ _, Running.of_reading rfl (fun _ => h.running.alone hsw) rfl
        (h.core.reading_auth ha) rfl ?_⟩
      intro profile target ht
      cases ht
      exact h.running.targeted _ _ _ hop rfl
    · cases hs
      exact h.toTargeted hop hsw rfl rfl rfl
  · split at hs
    · rename_i a v ha
      cases hs
      refine ⟨h.core.mark _ _, Running.of_reading rfl ?_ rfl (h.core.reading_auth ha) rfl ?_⟩
      · intro hsw
        cases hsw
      · intro profile target ht
        cases ht
    · cases hs
      exact Inv.idle h.core _
  · cases hs

end

theorem copy_registry (w : World) (i : String) (raw : Credential) (o : Write) :
    (w.copy i raw o).registry = w.registry := by
  unfold copy
  split <;> rfl

theorem copy_probe (w : World) (i : String) (raw : Credential) (o : Write) :
    (w.copy i raw o).probe = w.probe := by
  unfold copy
  split <;> rfl

theorem copy_newest (w : World) (i : String) (raw : Credential) (o : Write) :
    (w.copy i raw o).newest = w.newest := by
  unfold copy
  split <;> rfl

theorem Core.addProfile (h : w.Core) {a i : String} {v : Nat} (hraw : w.Reading ⟨some a, v⟩)
    (hnone : ∀ j, w.registry.get? j ≠ some a) (hi : ¬ w.drawn.contains i) (o : Write) :
    (w.addProfile i a ⟨some a, v⟩ o).Core := by
  have hfree : w.registry.get? i = none := by
    cases hg : w.registry.get? i with
    | none => rfl
    | some b =>
      have hmem := h.known i b hg
      exact absurd (List.contains_iff_mem.mpr hmem) hi
  unfold World.addProfile
  split
  · exact h
  dsimp only
  have hdrawn := h.draw i ⟨some a, v⟩ o hfree
  split
  · rename_i ho
    cases ho
    have hreading : Reading { w.copy i ⟨some a, v⟩ .done with drawn := i :: w.drawn }
        ⟨some a, v⟩ := hraw
    exact hdrawn.register hreading hnone hfree (List.mem_cons_self ..) (Dict.get?_set_self _ _ _)
  · exact hdrawn

variable {o : Write}

theorem Inv.writeSaved (h : w.Inv) {drawn : String}
    (hs : w.writeSaved o drawn = some t) : t.Inv := by
  unfold World.writeSaved at hs
  split at hs
  · rename_i a v hop
    have hreading := h.running.reading _ ⟨some a, v⟩ hop rfl
    split at hs
    · rename_i i hi
      have hcore := h.core.copy hreading (profileOf_eq_some hi) o
      cases hs
      split
      · exact Inv.idle hcore _
      · exact Inv.idle hcore _
    rename_i hnone
    split at hs
    · cases hs
    rename_i hdrawn
    cases hs
    exact Inv.idle (h.core.addProfile hreading (profileOf_eq_none hnone) hdrawn o) _
  · rename_i profile wasSignedIn target previous a v hop
    have hreading := h.running.reading _ ⟨some a, v⟩ hop rfl
    have hsw : w.switching = true := by
      unfold switching
      rw [hop]
    split at hs
    · rename_i i hi
      have hcore := h.core.copy hreading (profileOf_eq_some hi) o
      cases hs
      split
      · refine ⟨hcore.mark _ _, Running.of_targeted rfl ?_ rfl rfl ?_⟩
        · intro _
          show (w.copy i ⟨some a, v⟩ o).probe = none
          rw [copy_probe]
          exact h.running.alone hsw
        · intro p c hc
          cases hc
          obtain ⟨b, hb, hreg⟩ := h.running.targeted _ _ _ hop rfl
          refine ⟨b, hb, ?_⟩
          show (w.copy i ⟨some a, v⟩ o).registry.get? profile = some b
          rw [copy_registry]
          exact hreg
      · exact Inv.idle hcore _
    · cases hs
      exact h.toTargeted hop hsw rfl rfl rfl
  · rename_i a v hop
    have hreading := h.running.reading _ ⟨some a, v⟩ hop rfl
    split at hs
    · rename_i i hi
      have hreg := profileOf_eq_some hi
      have hcore := h.core.copy hreading hreg o
      cases hs
      split
      · refine ⟨hcore.mark _ _, Running.of_returning rfl ?_ rfl ?_ rfl⟩
        · intro hsw
          cases hsw
        intro previous hp b v' hb
        cases hp
        cases hb
        obtain ⟨b, v₀, v', hb, hauth, hle, _⟩ := hreading
        cases hb
        have hbound := h.core.bound a v' hauth
        constructor
        · show v ≤ (w.copy i ⟨some a, v⟩ o).newest a
          rw [copy_newest]
          omega
        · refine Or.inl ⟨i, ?_⟩
          show (w.copy i ⟨some a, v⟩ o).registry.get? i = some a
          rw [copy_registry]
          exact hreg
      · exact Inv.idle hcore _
    · cases hs
      exact Inv.idle h.core _
  · cases hs

/-! ## Writes of the native file -/

theorem Core.fresh_of_auth (h : w.Core) {previous : Option Credential}
    (hauth : w.auth = previous) (a : String) (v : Nat) (hp : previous = some ⟨some a, v⟩) :
    v ≤ w.newest a ∧ ((∃ i, w.registry.get? i = some a) ∨
      (v = w.newest a ∧ ∀ i, w.registry.get? i ≠ some a)) := by
  rw [hp] at hauth
  refine ⟨h.bound a v hauth, ?_⟩
  by_cases hi : ∃ i, w.registry.get? i = some a
  · exact Or.inl hi
  · have hno : ∀ i, w.registry.get? i ≠ some a := fun i he => hi ⟨i, he⟩
    exact Or.inr ⟨h.fresh a v hauth hno, hno⟩

theorem Inv.activate (h : w.Inv) (hcareful : w.Careful (.activate o) = true)
    (hs : w.activate o = some t) : t.Inv := by
  unfold World.activate at hs
  unfold Careful at hcareful
  split at hs
  · rename_i profile wasSignedIn target previous hop
    rw [hop] at hcareful
    have hsw : w.switching = true := by
      unfold switching
      rw [hop]
    have hprobe := h.running.alone hsw
    obtain ⟨b, hb, hreg⟩ := h.running.targeted _ profile target hop rfl
    cases heff : o.effective with
    | false =>
      have ho : o ≠ .done := fun he => by
        rw [he] at heff
        cases heff
      rw [heff, if_neg Bool.false_ne_true, if_neg ho] at hs
      cases hs
      exact Inv.idle h.core _
    | true =>
      dsimp only at hcareful
      rw [heff, Bool.not_true, Bool.false_or, Bool.and_eq_true, Bool.and_eq_true] at hcareful
      obtain ⟨⟨hprevious, hold⟩, hnew⟩ := hcareful
      have hauth : w.auth = previous := by simpa using hprevious
      have hsaved : ∀ a v, some target = some (Credential.mk (some a) v) →
          a = b ∧ w.saved.get? profile = some ⟨some a, v⟩ := by
        intro a v ht
        cases ht
        cases hb
        exact ⟨rfl, h.core.settled hnew hreg⟩
      have hcore : (w.setAuth (some target)).Core := by
        apply h.core.setAuth _ hold hnew
        · intro a v ht
          obtain ⟨hab, hsv⟩ := hsaved a v ht
          exact (h.core.owned profile a _ (hab ▸ hreg) hsv).2
        · intro a v ht hno
          exact absurd ((hsaved a v ht).1 ▸ hreg) (hno profile)
        · intro p raw held a v hp
          rw [hprobe] at hp
          cases hp
      rw [heff, if_pos rfl] at hs
      by_cases ho : o = .done
      · rw [if_pos ho] at hs
        cases hs
        refine ⟨hcore.mark _ _, Running.of_returning rfl (fun _ => hprobe) rfl ?_ rfl⟩
        intro c hc a v ha
        replace hc : previous = some c := hc
        rw [ha] at hc
        obtain ⟨hle, hwhere⟩ := h.core.fresh_of_auth hauth a v hc
        refine ⟨hle, ?_⟩
        cases hwhere with
        | inl hi => exact Or.inl hi
        | inr hun =>
          refine Or.inr ⟨hun.1, rfl, ?_⟩
          intro v' hv'
          exact absurd ((hsaved a v' hv').1 ▸ hreg) (hun.2 profile)
      · rw [if_neg ho] at hs
        cases hs
        exact Inv.idle hcore _
  · cases hs

theorem Core.unlink (h : w.Core) (hold : w.settled w.auth = true) : (w.setAuth none).Core := by
  apply h.setAuth none hold rfl
  · intro a v hn
    cases hn
  · intro a v hn
    cases hn
  · intro p raw held a v _ _ hn
    cases hn

theorem Inv.detach (h : w.Inv) (hcareful : w.Careful (.detach o) = true)
    (hs : w.detach o = some t) : t.Inv := by
  unfold World.detach at hs
  unfold Careful at hcareful
  split at hs
  · rename_i previous hop
    have hcore : (if o.effective then w.setAuth none else w).Core := by
      split
      · rename_i heff
        dsimp only at hcareful
        rw [heff, Bool.not_true, Bool.false_or] at hcareful
        exact h.core.unlink hcareful
      · exact h.core
    have hfields : (if o.effective then w.setAuth none else w).registry = w.registry ∧
        (if o.effective then w.setAuth none else w).newest = w.newest := by
      split <;> exact ⟨rfl, rfl⟩
    obtain ⟨hreg, hnew⟩ := hfields
    generalize (if o.effective then w.setAuth none else w) = u at hs hcore hreg hnew
    have hreturning : ∀ a v, previous = Credential.mk (some a) v →
        v ≤ u.newest a ∧ ∃ i, u.registry.get? i = some a := by
      intro a v ha
      obtain ⟨hle, hwhere⟩ := h.running.returning _ previous hop rfl a v ha
      rw [hreg, hnew]
      cases hwhere with
      | inl hi => exact ⟨hle, hi⟩
      | inr hun =>
        have hsw := hun.2.1
        unfold switching at hsw
        rw [hop] at hsw
        cases hsw
    split at hs
    · cases hs
      refine ⟨hcore.mark _ _, Running.of_returning rfl ?_ rfl ?_ rfl⟩
      · intro hsw
        cases hsw
      · intro c hc a v ha
        cases hc
        exact ⟨(hreturning a v ha).1, Or.inl (hreturning a v ha).2⟩
    · cases hs
      refine ⟨hcore.mark _ _, Running.of_returning rfl ?_ rfl ?_ rfl⟩
      · intro hsw
        cases hsw
      · intro c hc a v ha
        cases hc
        exact ⟨(hreturning a v ha).1, Or.inl (hreturning a v ha).2⟩
  · cases hs

/-- A rollback over a saved native file, with a credential that is saved too. -/
theorem Inv.restoreTo (h : w.Inv) (hop : w.operation = some op)
    (hcareful : w.Careful (.restore o) = true) :
    (w.restoreTo op.previous o).Inv := by
  have hcore : (if o.effective then w.setAuth op.previous else w).Core := by
    split
    · rename_i heff
      unfold Careful at hcareful
      rw [hop] at hcareful
      dsimp only at hcareful
      rw [heff, Bool.not_true, Bool.false_or, Bool.and_eq_true, Bool.and_eq_true] at hcareful
      obtain ⟨⟨hold, hnew⟩, hprobes⟩ := hcareful
      apply h.core.setAuth _ hold hnew
      · intro a v ha
        exact (h.running.returning op _ hop ha a v rfl).1
      · intro a v ha hno
        obtain ⟨_, hwhere⟩ := h.running.returning op _ hop ha a v rfl
        cases hwhere with
        | inl hi =>
          obtain ⟨i, hi⟩ := hi
          exact absurd hi (hno i)
        | inr hun => exact hun.1
      · intro p raw held a v hp hc ha hacc
        obtain ⟨b, v₁, v₂, hraw, hheld, _⟩ := (h.core.probing p raw held hp hc).versions
        rw [hheld] at hacc
        cases hacc
        unfold probes at hprobes
        rw [ha, hp] at hprobes
        simp [hc, hraw] at hprobes
    · exact h.core
  exact Inv.idle hcore _

theorem Inv.restore (h : w.Inv) (hcareful : w.Careful (.restore o) = true)
    (hs : w.restore o = some t) : t.Inv := by
  unfold World.restore at hs
  split at hs
  · rename_i hop
    cases hs
    exact h.restoreTo hop hcareful
  · rename_i hop
    cases hs
    exact h.restoreTo hop hcareful
  · cases hs

theorem Inv.removeInactive (h : w.Inv)
    (hcareful : w.Careful (.removeInactive o) = true) (hs : w.removeInactive o = some t) :
    t.Inv := by
  unfold World.removeInactive at hs
  split at hs
  · rename_i profile hop
    split at hs
    · cases hs
      exact Inv.idle h.core _
    rename_i a hreg
    split at hs
    · cases hs
      exact Inv.idle h.core _
    rename_i hremovable
    have hcurrent : w.currentAccount ≠ some a := fun he => hremovable (Or.inl he)
    cases o with
    | done =>
      cases hs
      exact Inv.idle (h.core.removed hreg hcurrent _) _
    | failed effective =>
      cases effective with
      | false =>
        cases hs
        exact Inv.idle h.core _
      | true =>
        unfold Careful at hcareful
        simp at hcareful
  · cases hs

/-! ## Usage reads -/

/-- An operation goes on while a usage read moves: nothing comes closer to the native file. -/
theorem Running.of_probe (h : w.Running) (hop : t.operation = w.operation)
    (hauth : t.auth = w.auth) (hreg : t.registry = w.registry)
    (hnewest : ∀ a, w.newest a ≤ t.newest a)
    (halone : w.switching = true → t.newest = w.newest ∧ t.probe = none)
    (hprobe : ∀ p raw held, t.probe = some p → p.copies = some (raw, held) →
      (∃ p', w.probe = some p' ∧ p'.copies = some (raw, held)) ∨
        ∀ a v, held.account = some a → w.auth ≠ some ⟨some a, v⟩) : t.Running := by
  have hsw : t.switching = w.switching := by
    unfold switching
    rw [hop]
  constructor
  · intro hs
    rw [hsw] at hs
    exact (halone hs).2
  · intro op raw ht hr
    rw [hop] at ht
    obtain ⟨a, v, v', hraw, ha, hle, hbelow⟩ := h.reading op raw ht hr
    refine ⟨a, v, v', hraw, hauth.trans ha, hle, ?_⟩
    intro p c held hp hc hacc
    cases hprobe p c held hp hc with
    | inl hold =>
      obtain ⟨p', hp', hc'⟩ := hold
      exact hbelow p' c held hp' hc' hacc
    | inr hno => exact absurd ha (hno a v' hacc)
  · intro op previous ht hr a v hpre
    rw [hop] at ht
    obtain ⟨hle, hwhere⟩ := h.returning op previous ht hr a v hpre
    refine ⟨Nat.le_trans hle (hnewest a), ?_⟩
    rw [hreg, hauth, hsw]
    cases hwhere with
    | inl hi => exact Or.inl hi
    | inr hun =>
      rw [(halone hun.2.1).1]
      exact Or.inr hun
  · intro op profile target ht hr
    rw [hop] at ht
    rw [hreg]
    exact h.targeted op profile target ht hr

section

variable (h : w.Inv)

include h

theorem Inv.beginProbe {profile : String} (hs : w.beginProbe profile = some t) :
    t.Inv := by
  unfold World.beginProbe at hs
  rcases Runs.enabled hs with ⟨hfree, hs⟩
  split at hs
  · cases hs
  split at hs
  · cases hs
  cases hs
  constructor
  · apply h.core.setProbe
    · intro p raw held hp
      rw [hfree.1] at hp
      cases hp
    · intro p raw held hp hc
      cases hp
      cases hc
  · refine h.running.of_probe rfl rfl rfl (fun a => Nat.le_refl _) ?_ ?_
    · intro hsw
      rw [hfree.2] at hsw
      cases hsw
    · intro p raw held hp hc
      cases hp
      cases hc

theorem Inv.not_switching {p : Probe} (hp : w.probe = some p) :
    w.switching = false := by
  cases hsw : w.switching with
  | false => rfl
  | true =>
    have hnone := h.running.alone hsw
    rw [hp] at hnone
    cases hnone

theorem Inv.dropProbe
    (hsame : ∀ p raw held, w.probe = some p → p.copies = some (raw, held) → held = raw) :
    (w.setProbe none).Inv := by
  constructor
  · apply h.core.setProbe
    · intro p raw held hp hc hne
      exact absurd (hsame p raw held hp hc) hne
    · intro p raw held hp
      cases hp
  · refine h.running.of_probe rfl rfl rfl (fun a => Nat.le_refl _) (fun _ => ⟨rfl, rfl⟩) ?_
    intro p raw held hp
    cases hp

theorem Inv.readSaved (hcareful : w.Careful .readSaved = true)
    (hs : w.readSaved = some t) : t.Inv := by
  unfold World.readSaved at hs
  split at hs
  · rename_i profile hp
    have hsw := h.not_switching hp
    split at hs
    · rename_i raw ht
      cases hs
      obtain ⟨a, hreg, hsaved, hacc⟩ := targetCredential_eq_some ht
      have hother : ∀ v, w.auth ≠ some ⟨some a, v⟩ := by
        intro v hv
        unfold Careful at hcareful
        rw [hp] at hcareful
        simp [currentAccount, hv, Probe.profile, hreg] at hcareful
      have hone : ∀ p c held, some (Probe.running profile raw raw) = some p →
          p.copies = some (c, held) → p.profile = profile ∧ c = raw ∧ held = raw := by
        intro p c held hp' hc
        cases hp'
        cases hc
        exact ⟨rfl, rfl, rfl⟩
      have hnot : ∀ b v, raw.account = some b → w.auth ≠ some ⟨some b, v⟩ := by
        intro b v hb
        rw [hacc] at hb
        cases hb
        exact hother v
      constructor
      · apply h.core.setProbe
        · intro p c held hp' hc
          rw [hp] at hp'
          cases hp'
          cases hc
        intro p c held hp' hc
        obtain ⟨hpi, hcr, hhr⟩ := hone p c held hp' hc
        rw [hcr, hhr]
        constructor
        · refine ⟨a, raw.version, raw.version, ?_, ?_, Nat.le_refl _, ?_⟩
          · rw [← hacc]
          · rw [← hacc]
          · exact (h.core.owned profile a raw hreg hsaved).2
        · intro b v hb hv
          exact absurd hv (hnot b v hb)
        · intro i b hi hb
          rw [hacc] at hb
          cases hb
          have hip := h.core.accounts i profile a hi hreg
          rw [hip, hpi]
          exact Or.inl ⟨rfl, hsaved⟩
      · refine h.running.of_probe rfl rfl rfl (fun b => Nat.le_refl _) ?_ ?_
        · intro hs'
          rw [hsw] at hs'
          cases hs'
        · intro p c held hp' hc
          right
          rw [(hone p c held hp' hc).2.2]
          exact hnot
    · cases hs
      apply h.dropProbe
      intro p raw held hp' hc
      rw [hp] at hp'
      cases hp'
      cases hc
  · cases hs

theorem Inv.refreshProbe (hs : w.refreshProbe = some t) : t.Inv := by
  unfold World.refreshProbe at hs
  split at hs
  · rename_i profile raw a v hp
    rcases Runs.enabled hs with ⟨hv, hs⟩
    subst hv
    cases hs
    have hsw := h.not_switching hp
    refine ⟨h.core.refreshProbe hp, h.running.of_probe rfl rfl rfl (newest_le_issue w a) ?_ ?_⟩
    · intro hs'
      rw [hsw] at hs'
      cases hs'
    intro p c held hp' hc
    cases hp'
    cases hc
    right
    intro b v hb hv
    cases hb
    have hprobing := h.core.probing _ raw ⟨some a, w.newest a⟩ hp rfl
    have hlt : w.newest a < v := hprobing.below a v rfl hv
    have hle := h.core.bound a v hv
    omega
  · cases hs

theorem Inv.stopProbe (hs : w.stopProbe = some t) : t.Inv := by
  unfold World.stopProbe at hs
  split at hs
  · rename_i profile raw held hp
    cases hs
    have hsw := h.not_switching hp
    constructor
    · apply h.core.setProbe
      · intro p c c' hp' hc _
        rw [hp] at hp'
        cases hp'
        exact ⟨_, rfl, rfl, hc⟩
      · intro p c c' hp' hc
        cases hp'
        cases hc
        have hprobing := h.core.probing _ raw held hp rfl
        exact ⟨hprobing.versions, hprobing.below, hprobing.current⟩
    · refine h.running.of_probe rfl rfl rfl (fun a => Nat.le_refl _) ?_ ?_
      · intro hs'
        rw [hsw] at hs'
        cases hs'
      · intro p c c' hp' hc
        cases hp'
        exact Or.inl ⟨_, hp, hc⟩
  · cases hs

theorem Inv.storeProbe (hcareful : w.Careful (.storeProbe o) = true)
    (hs : w.storeProbe o = some t) : t.Inv := by
  unfold World.storeProbe at hs
  split at hs
  · rename_i profile raw held hp
    cases hs
    have hdrop : held = raw → (w.setProbe none).Inv := by
      intro hhr
      apply h.dropProbe
      intro p c c' hp' hc
      rw [hp] at hp'
      cases hp'
      cases hc
      exact hhr
    unfold Careful at hcareful
    rw [hp] at hcareful
    dsimp only at hcareful
    rw [Bool.or_eq_true, Bool.and_eq_true, decide_eq_true_eq] at hcareful
    split
    · rename_i hkeeps
      unfold copy
      split
      · refine ⟨h.core.store hp hkeeps, ?_⟩
        have hidle : (w.setProbe none).Running := by
          refine h.running.of_probe rfl rfl rfl (fun a => Nat.le_refl _)
            (fun _ => ⟨rfl, rfl⟩) ?_
          intro p c c' hp'
          cases hp'
        exact hidle.of_probe rfl rfl rfl (fun a => Nat.le_refl _) (fun _ => ⟨rfl, rfl⟩)
          (fun p c c' hp' => by cases hp')
      · rename_i heff
        cases hcareful with
        | inl hhr => exact hdrop hhr
        | inr hboth => exact absurd hboth.2 heff
    · rename_i hkeeps
      cases hcareful with
      | inl hhr => exact hdrop hhr
      | inr hboth => exact absurd hboth.1 hkeeps
  · cases hs

theorem Inv.failProbe (hcareful : w.Careful .failProbe = true)
    (hs : w.failProbe = some t) : t.Inv := by
  unfold World.failProbe at hs
  split at hs
  · cases hs
  cases hs
  apply h.dropProbe
  intro p raw held hp hc
  unfold Careful at hcareful
  rw [hp] at hcareful
  simpa [hc] using hcareful

theorem Inv.next (step : Step) (hcareful : w.Careful step = true)
    (hs : w.next step = some t) : t.Inv := by
  cases step with
  | refresh => exact h.refresh hs
  | signIn account => exact h.signIn hs
  | beginSave => exact h.begin_ hs rfl rfl rfl rfl
  | beginSwitch profile wasSignedIn => exact h.begin_ hs rfl rfl rfl rfl
  | beginPrepare => exact h.begin_ hs rfl rfl rfl rfl
  | beginRemove profile => exact h.begin_ hs rfl rfl rfl rfl
  | fail => exact h.fail hs
  | complete => exact h.complete hs
  | readTarget => exact h.readTarget hs
  | readPrevious => exact h.readPrevious hs
  | readCurrent => exact h.readCurrent hs
  | writeSaved o drawn => exact h.writeSaved hs
  | activate o => exact h.activate hcareful hs
  | detach o => exact h.detach hcareful hs
  | restore o => exact h.restore hcareful hs
  | removeInactive o => exact h.removeInactive hcareful hs
  | beginProbe profile => exact h.beginProbe hs
  | readSaved => exact h.readSaved hcareful hs
  | refreshProbe => exact h.refreshProbe hs
  | stopProbe => exact h.stopProbe hs
  | storeProbe o => exact h.storeProbe hcareful hs
  | failProbe => exact h.failProbe hcareful hs

end

/-- In every run whose steps are careful the newest sign-ins are kept. -/
theorem run_newestKept {steps : List Step}
    (hcareful : Runs.Meets next (fun s step => s.Careful step = true) initial steps)
    (hrun : Runs.exec next initial steps = some w) : w.Kept := by
  have hinv : w.Inv := Runs.invariant_of_meets
    (fun s step u hs hc hn => Inv.next hs step hc hn) inv_initial hcareful hrun
  exact hinv.kept

/-- Two sign-ins are saved, a usage read stores a refreshed sign-in of the first, and the
switch back to it is rolled back. -/
def savedAndSwitched : List Step :=
  [.signIn "a", .beginSave, .readCurrent, .writeSaved .done "p", .beginPrepare, .readCurrent,
    .writeSaved .done "-", .detach .done, .complete, .signIn "b", .refresh, .beginSave,
    .readCurrent, .writeSaved .done "q", .beginProbe "p", .readSaved, .refreshProbe, .stopProbe,
    .storeProbe .done, .beginSwitch "p" true, .readTarget, .readPrevious, .readCurrent,
    .writeSaved .done "-", .activate .done, .fail, .restore .done]

theorem run_savedAndSwitched :
    (Runs.exec next initial savedAndSwitched).isSome = true ∧
      ∀ w, Runs.exec next initial savedAndSwitched = some w → w.Kept :=
  ⟨by decide +kernel, fun _ h => run_newestKept (by decide +kernel) h⟩

/-- A usage read refreshes the saved sign-in of `a`, and its next read times out. -/
def refreshedAndDropped : List Step :=
  [.signIn "a", .beginSave, .readCurrent, .writeSaved .done "p", .beginPrepare, .readCurrent,
    .writeSaved .done "-", .detach .done, .complete, .beginProbe "p", .readSaved, .refreshProbe,
    .failProbe]

theorem refreshedAndDropped_loses :
    ∃ w, Runs.exec next initial refreshedAndDropped = some w ∧ ¬ w.Kept := by
  have hrun : (Runs.exec next initial refreshedAndDropped).map (fun w => decide
      (w.operation = none ∧ w.probe = none ∧ w.registry.get? "p" = some "a" ∧ w.auth = none ∧
        w.saved.get? "p" = some ⟨some "a", 1⟩ ∧ w.newest "a" = 2)) = some true := by
    decide +kernel
  obtain ⟨w, hw, hall⟩ := Option.map_eq_some_iff.mp hrun
  obtain ⟨hop, hprobe, hreg, hauth, hsaved, hnewest⟩ := of_decide_eq_true hall
  refine ⟨w, hw, ?_⟩
  intro hkept
  cases hkept hop hprobe "p" "a" hreg with
  | inl ha =>
    rw [hauth] at ha
    cases ha
  | inr hs =>
    rw [hsaved, hnewest] at hs
    cases hs

end World

end CodexBridge.Accounts
