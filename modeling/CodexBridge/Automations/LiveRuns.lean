import CodexBridge.Automations.Elementary

/-! # At most one live run

The overlap guard of `_claim` asks whether a run is active and the idempotency
index is derived from the runs. Both are sound only if every operation keeps the
runs, the automations and the index in agreement, also when it raises half way
and when the process comes back with an older file.
-/

namespace CodexBridge.Automations

open Effect

structure Consistent (s : State) : Prop where
  automation_id : ∀ k a, s.automations.get? k = some a → a.automationId = k
  run_id : ∀ k r, s.runs.get? k = some r → r.automationRunId = k
  run_automation : ∀ k r, s.runs.get? k = some r → ∃ a, s.automations.get? r.automationId = some a
  one_live : ∀ k k' r r', s.runs.get? k = some r → s.runs.get? k' = some r' →
    r.automationId = r'.automationId → r.status.isActive = true → r'.status.isActive = true →
    k = k'
  dispatchable : ∀ k r, s.runs.get? k = some r → (r.dispatchable = true ↔ r.status = .queued)
  index : ∀ key k, s.idempotency.get? key = some k ↔
    ∃ r, s.runs.get? k = some r ∧ r.idempotencyKey = key

def Store.Consistent (s : Store) : Prop :=
  Automations.Consistent s.state ∧ ∀ f, s.saved = some f → Automations.Consistent f

theorem consistent_empty : Consistent State.empty := by
  constructor <;> simp [State.empty]

/-! ## Edits of the state -/

variable {s t : State}

theorem Consistent.congr (h : Consistent s) (ha : t.automations = s.automations)
    (hr : t.runs = s.runs) (hi : t.idempotency = s.idempotency) : Consistent t := by
  obtain ⟨h1, h2, h3, h4, h5, h6⟩ := h
  constructor
  · rwa [ha]
  · rwa [hr]
  · rwa [hr, ha]
  · rwa [hr]
  · rwa [hr]
  · rwa [hi, hr]

section

variable (h : Consistent s) {k : String}

include h

/-- Assigning under a key a record that names the key. -/
theorem Consistent.setAutomation {a : Automation}
    (hk : a.automationId = k) (ha : t.automations = s.automations.set k a)
    (hr : t.runs = s.runs) (hi : t.idempotency = s.idempotency) : Consistent t := by
  obtain ⟨h1, h2, h3, h4, h5, h6⟩ := h
  constructor
  · intro k' a' h'
    rw [ha, Dict.get?_set] at h'
    split at h'
    · rename_i hkk
      cases h'
      rw [hk, hkk]
    · exact h1 k' a' h'
  · rwa [hr]
  · intro k' r h'
    rw [hr] at h'
    rw [ha, Dict.get?_set]
    split
    · exact ⟨a, rfl⟩
    · exact h3 k' r h'
  · rwa [hr]
  · rwa [hr]
  · rwa [hi, hr]

/-- Changing a record in place without touching its identifier. -/
theorem Consistent.updateAutomation {f : Automation → Automation}
    (hf : ∀ a, (f a).automationId = a.automationId)
    (ha : t.automations = s.automations.update k f) (hr : t.runs = s.runs)
    (hi : t.idempotency = s.idempotency) : Consistent t := by
  obtain ⟨h1, h2, h3, h4, h5, h6⟩ := h
  constructor
  · intro k' a' h'
    rw [ha, Dict.get?_update] at h'
    split at h'
    · obtain ⟨a, hg, rfl⟩ := Option.map_eq_some_iff.mp h'
      rw [hf]
      exact h1 k' a hg
    · exact h1 k' a' h'
  · rwa [hr]
  · intro k' r h'
    rw [hr] at h'
    obtain ⟨a, hg⟩ := h3 k' r h'
    rw [ha, Dict.get?_update]
    split
    · exact ⟨f a, by rw [hg]; rfl⟩
    · exact ⟨a, hg⟩
  · rwa [hr]
  · rwa [hr]
  · rwa [hi, hr]

theorem Consistent.updateRun {f : Run → Run}
    (hf : ∀ r, s.runs.get? k = some r → KeepsClaim f r) (ha : t.automations = s.automations)
    (hr : t.runs = s.runs.update k f) (hi : t.idempotency = s.idempotency) : Consistent t := by
  obtain ⟨h1, h2, h3, h4, h5, h6⟩ := h
  -- every run of `t` comes from a run of `s` with the same owner and key
  have hback : ∀ k' r', t.runs.get? k' = some r' → ∃ r, s.runs.get? k' = some r ∧
      r'.automationRunId = r.automationRunId ∧ r'.automationId = r.automationId ∧
      r'.idempotencyKey = r.idempotencyKey ∧
      (r'.status.isActive = true → r.status.isActive = true) ∧
      (r'.dispatchable = true ↔ r'.status = .queued) := by
    intro k' r' h'
    rw [hr, Dict.get?_update] at h'
    split at h'
    · rename_i hkk
      obtain ⟨r, hg, rfl⟩ := Option.map_eq_some_iff.mp h'
      have hk := hf r (hkk ▸ hg)
      exact ⟨r, hg, hk.run_id, hk.automation_id, hk.key, hk.active, hk.dispatchable (h5 k' r hg)⟩
    · exact ⟨r', h', rfl, rfl, rfl, id, h5 k' r' h'⟩
  have hforth : ∀ k' r, s.runs.get? k' = some r → ∃ r', t.runs.get? k' = some r' ∧
      r'.idempotencyKey = r.idempotencyKey := by
    intro k' r hg
    rw [hr, Dict.get?_update]
    split
    · rename_i hkk
      exact ⟨f r, by rw [hg]; rfl, (hf r (hkk ▸ hg)).key⟩
    · exact ⟨r, hg, rfl⟩
  constructor
  · rwa [ha]
  · intro k' r' h'
    obtain ⟨r, hg, hid, -⟩ := hback k' r' h'
    rw [hid]
    exact h2 k' r hg
  · intro k' r' h'
    obtain ⟨r, hg, -, hid, -⟩ := hback k' r' h'
    rw [hid, ha]
    exact h3 k' r hg
  · intro k₁ k₂ r₁ r₂ hg₁ hg₂ hsame ha₁ ha₂
    obtain ⟨s₁, hs₁, -, hid₁, -, hact₁, -⟩ := hback k₁ r₁ hg₁
    obtain ⟨s₂, hs₂, -, hid₂, -, hact₂, -⟩ := hback k₂ r₂ hg₂
    exact h4 k₁ k₂ s₁ s₂ hs₁ hs₂ (by rw [← hid₁, ← hid₂, hsame]) (hact₁ ha₁) (hact₂ ha₂)
  · intro k' r' h'
    obtain ⟨r, -, -, -, -, -, hd⟩ := hback k' r' h'
    exact hd
  · intro key k'
    rw [hi, h6]
    constructor
    · intro hex
      obtain ⟨r, hg, hkey⟩ := hex
      obtain ⟨r', hg', hkey'⟩ := hforth k' r hg
      exact ⟨r', hg', by rw [hkey', hkey]⟩
    · intro hex
      obtain ⟨r', hg', hkey⟩ := hex
      obtain ⟨r, hg, -, -, hkey', -⟩ := hback k' r' hg'
      exact ⟨r, hg, by rw [← hkey', hkey]⟩

end

variable {s : State}

theorem Consistent.key_injective (h : Consistent s) {k k' : String} {r r' : Run}
    (hr : s.runs.get? k = some r) (hr' : s.runs.get? k' = some r')
    (hkey : r.idempotencyKey = r'.idempotencyKey) : k = k' := by
  have h₁ := (h.index r.idempotencyKey k).mpr ⟨r, hr, rfl⟩
  have h₂ := (h.index r.idempotencyKey k').mpr ⟨r', hr', hkey.symm⟩
  rw [h₁] at h₂
  exact Option.some.inj h₂

theorem get?_rebuildIdempotency
    (hinj : ∀ k k' r r', s.runs.get? k = some r → s.runs.get? k' = some r' →
      r.idempotencyKey = r'.idempotencyKey → k = k') (key k : String) :
    (rebuildIdempotency s).idempotency.get? key = some k ↔
      ∃ r, s.runs.get? k = some r ∧ r.idempotencyKey = key := by
  have hnodup : ((s.runs.entries.map fun e => (e.2.idempotencyKey, e.1)).map Prod.fst).Nodup := by
    rw [List.map_map]
    refine List.Nodup.map_on ?_ (List.Nodup.of_map _ s.runs.nodup)
    intro e he e' he' hkey
    have hg := (s.runs.get?_eq_some_iff e.1 e.2).mpr he
    have hg' := (s.runs.get?_eq_some_iff e'.1 e'.2).mpr he'
    have hk := hinj e.1 e'.1 e.2 e'.2 hg hg' hkey
    rw [← hk, hg] at hg'
    exact Prod.ext hk (Option.some.inj hg')
  rw [rebuildIdempotency, Dict.get?_ofList hnodup]
  simp only [List.mem_map, Prod.mk.injEq, Prod.exists, Dict.get?_eq_some_iff]
  constructor
  · intro hex
    obtain ⟨k', r, hm, hkey, rfl⟩ := hex
    exact ⟨r, hm, hkey⟩
  · intro hex
    obtain ⟨r, hm, hkey⟩ := hex
    exact ⟨k, r, hm, hkey, rfl⟩

section

variable (h : Consistent s)

include h

theorem Consistent.filterRuns (p : String → Run → Bool)
    (ha : ∀ k a, t.automations.get? k = some a → s.automations.get? k = some a)
    (hneed : ∀ k r, s.runs.get? k = some r → p k r = true →
      ∃ a, t.automations.get? r.automationId = some a)
    (hr : t.runs = s.runs.filter p) : Consistent (rebuildIdempotency t) := by
  have hback : ∀ k r, t.runs.get? k = some r → s.runs.get? k = some r ∧ p k r = true := by
    intro k r hg
    rw [hr, Dict.get?_filter_eq_some_iff] at hg
    exact hg
  constructor
  · intro k a hg
    exact h.automation_id k a (ha k a hg)
  · intro k r hg
    exact h.run_id k r (hback k r hg).1
  · intro k r hg
    obtain ⟨hs, hp⟩ := hback k r hg
    exact hneed k r hs hp
  · intro k k' r r' hg hg' hsame hact hact'
    exact h.one_live k k' r r' (hback k r hg).1 (hback k' r' hg').1 hsame hact hact'
  · intro k r hg
    exact h.dispatchable k r (hback k r hg).1
  · intro key k
    refine get?_rebuildIdempotency ?_ key k
    intro k₁ k₂ r₁ r₂ hg₁ hg₂ hkey
    exact h.key_injective (hback k₁ r₁ hg₁).1 (hback k₂ r₂ hg₂).1 hkey

theorem Consistent.pruneRuns (env : Environment)
    (protectedIds : List String) : Consistent (pruneRuns env protectedIds s) := by
  unfold Automations.pruneRuns
  simp only
  split
  · exact h
  refine h.filterRuns (fun k _ => decide (k ∉ prunedRuns env protectedIds s)) ?_ ?_ rfl
  · intro k a hg
    exact hg
  · intro k r hg _
    exact h.run_automation k r hg

theorem Consistent.pruneCreateRequests (env : Environment) :
    Consistent (pruneCreateRequests env s).1 := by
  unfold Automations.pruneCreateRequests
  simp only
  split
  · exact h
  · exact h.congr rfl rfl rfl

/-! ## Claiming -/

/-- A run stored under a fresh identifier and key; it may be live only if no other is. -/
theorem Consistent.recordClaim {automationId : String} {run : Run}
    (howner : run.automationId = automationId)
    (hauto : ∃ a, s.automations.get? automationId = some a)
    (hid : s.runs.get? run.automationRunId = none)
    (hkey : s.idempotency.get? run.idempotencyKey = none)
    (hlive : run.status.isActive = true → hasActiveRun s automationId = false)
    (hd : run.dispatchable = true ↔ run.status = .queued) :
    Consistent (recordClaim automationId run s) := by
  have hruns : ∀ k r, (s.runs.set run.automationRunId run).get? k = some r →
      (k = run.automationRunId ∧ r = run) ∨ s.runs.get? k = some r := by
    intro k r hg
    rw [Dict.get?_set] at hg
    split at hg
    · rename_i hk
      exact Or.inl ⟨hk, (Option.some.inj hg).symm⟩
    · exact Or.inr hg
  have hold : ∀ k r, s.runs.get? k = some r →
      (s.runs.set run.automationRunId run).get? k = some r := by
    intro k r hg
    rw [Dict.get?_set_of_ne _ _ (by intro hk; rw [hk, hid] at hg; cases hg)]
    exact hg
  have hother : ∀ k r, s.runs.get? k = some r → r.automationId = automationId →
      r.status.isActive = true → run.status.isActive = false := by
    intro k r hg hsame hact
    cases hrun : run.status.isActive with
    | false => rfl
    | true =>
      have hnone := hlive hrun
      have hany : hasActiveRun s automationId = true :=
        List.any_eq_true.mpr ⟨r, Dict.mem_values_of_get? hg, by simp [hsame, hact]⟩
      rw [hany] at hnone
      cases hnone
  have hautos : ∀ k a, (s.automations.update automationId fun r =>
      { r with
        lastRunAt := .kept (run.completedAt.getD run.createdAt)
        lastStatus := .kept run.status }).get? k = some a →
      ∃ a', s.automations.get? k = some a' ∧ a.automationId = a'.automationId := by
    intro k a hg
    rw [Dict.get?_update] at hg
    split at hg
    · obtain ⟨a', hg', rfl⟩ := Option.map_eq_some_iff.mp hg
      exact ⟨a', hg', rfl⟩
    · exact ⟨a, hg, rfl⟩
  constructor
  · intro k a hg
    obtain ⟨a', hg', hsame⟩ := hautos k a hg
    rw [hsame]
    exact h.automation_id k a' hg'
  · intro k r hg
    rcases hruns k r hg with ⟨rfl, rfl⟩ | hg'
    · rfl
    · exact h.run_id k r hg'
  · intro k r hg
    have hex : ∃ a, s.automations.get? r.automationId = some a := by
      rcases hruns k r hg with ⟨-, rfl⟩ | hg'
      · rw [howner]
        exact hauto
      · exact h.run_automation k r hg'
    obtain ⟨a, ha⟩ := hex
    simp only [Automations.recordClaim, Dict.get?_update, ha, Option.map_some]
    split
    · exact ⟨_, rfl⟩
    · exact ⟨a, rfl⟩
  · intro k k' r r' hg hg' hsame hact hact'
    rcases hruns k r hg with ⟨rfl, rfl⟩ | hs
    · rcases hruns k' r' hg' with ⟨rfl, -⟩ | hs'
      · rfl
      · rw [hother k' r' hs' (by rw [← hsame, howner]) hact'] at hact
        cases hact
    · rcases hruns k' r' hg' with ⟨rfl, rfl⟩ | hs'
      · rw [hother k r hs (by rw [hsame, howner]) hact] at hact'
        cases hact'
      · exact h.one_live k k' r r' hs hs' hsame hact hact'
  · intro k r hg
    rcases hruns k r hg with ⟨-, rfl⟩ | hs
    · exact hd
    · exact h.dispatchable k r hs
  · intro key k
    simp only [Automations.recordClaim, Dict.get?_set]
    constructor
    · intro hg
      split at hg
      · rename_i hk
        cases hg
        exact ⟨run, by simp, hk.symm⟩
      obtain ⟨r, hr, hrkey⟩ := (h.index key k).mp hg
      refine ⟨r, ?_, hrkey⟩
      have hr' := hold k r hr
      rwa [Dict.get?_set] at hr'
    · intro hex
      obtain ⟨r, hg, hrkey⟩ := hex
      rw [← Dict.get?_set] at hg
      rcases hruns k r hg with ⟨rfl, rfl⟩ | hs
      · rw [if_pos hrkey.symm]
      have hidx := (h.index key k).mpr ⟨r, hs, hrkey⟩
      rw [if_neg (by intro hk; rw [hk, hkey] at hidx; cases hidx)]
      exact hidx

theorem Consistent.deleteAutomation {automationId : String}
    (ha : t.automations = s.automations.erase automationId)
    (hr : t.runs = s.runs.filter fun _ r => r.automationId ≠ automationId) :
    Consistent (rebuildIdempotency t) := by
  refine h.filterRuns (fun _ r => decide (r.automationId ≠ automationId)) ?_ ?_ hr
  · intro k a hg
    rw [ha, Dict.get?_erase] at hg
    split at hg
    · cases hg
    · exact hg
  · intro k r hg hp
    obtain ⟨a, hga⟩ := h.run_automation k r hg
    refine ⟨a, ?_⟩
    rw [ha, Dict.get?_erase, if_neg (by simpa using hp)]
    exact hga

end

theorem keeps_edit {f : State → State} (h : ∀ s, Consistent s → Consistent (f s)) :
    Keeps Store.Consistent (edit f) := by
  apply Keeps.modify
  intro s hs
  exact ⟨h s.state hs.1, hs.2⟩

theorem keeps_editAutomation {k : String} {f : Automation → Automation}
    (hf : ∀ a, (f a).automationId = a.automationId) :
    Keeps Store.Consistent (editAutomation k f) :=
  keeps_edit fun _ hs => hs.updateAutomation hf rfl rfl rfl

/-- The calls keep the agreement through the edits they are made of. -/
theorem outcomes_consistent : Outcomes Store.Consistent fun _ => True where
  define := by
    intro record requests
    exact keeps_edit fun s hs => hs.setAutomation rfl rfl rfl rfl
  touch := fun k f hf => keeps_editAutomation hf
  requests := fun env => keeps_edit fun s hs => hs.pruneCreateRequests env
  persist := by
    intro s hs
    refine ⟨hs.1, ?_⟩
    intro f hf
    cases hf
    exact hs.1
  pruneRuns := fun env protectedIds => keeps_edit fun s hs => hs.pruneRuns env protectedIds
  editRun := by
    intro k f _ run hf
    apply Triple.modify
    intro s hs
    refine ⟨hs.1.1.updateRun ?_ rfl rfl rfl, hs.1.2⟩
    intro r hr
    rw [hs.2] at hr
    cases hr
    exact hf.toKeepsClaim

theorem claimStatus_isActive {env : Environment} {automationId : String}
    {record : Automation} {source : Source} {dueAt now : Int} {capacityAvailable : Bool}
    (h : (claimStatus env s automationId record source dueAt capacityAvailable now).isActive
      = true) : hasActiveRun s automationId = false := by
  unfold claimStatus at h
  split at h
  · cases h
  split at h
  · cases h
  split at h
  · cases h
  · rename_i hactive
    simpa using hactive

/-- The precondition of a claim: its drawn identifier is not in use. -/
def Store.Fresh (uuid : String) (s : Store) : Prop :=
  s.Consistent ∧ s.state.runs.get? ("autrun_" ++ uuid) = none

/-- A claim under a new key keeps the agreement if its identifier is fresh. -/
theorem storesClaim_fresh (env : Environment) (automationId uuid : String) (now : Int) :
    StoresClaim (Store.Fresh uuid) Store.Consistent env automationId uuid now := by
  refine ⟨fun _ hs => hs.1, ?_⟩
  intro request record status s hs hclaim
  refine ⟨hs.1.1.recordClaim rfl ⟨record, hclaim.found⟩ hs.2 hclaim.key ?_ ?_, hs.1.2⟩
  · intro hactive
    apply claimStatus_isActive
    rw [← hclaim.status]
    exact hactive
  · simp [claimedRun]

theorem Consistent.recoverRun {acc : State × List String} (h : Consistent acc.1) (now : Int)
    (runId : String) : Consistent (recoverRun now acc runId).1 := by
  unfold Automations.recoverRun
  cases hg : acc.1.runs.get? runId with
  | none => exact h
  | some run =>
    simp only
    split
    · exact h.updateRun (k := runId) (f := reconciledRun now)
        (fun r _ => ⟨rfl, rfl, rfl, fun ha => ha, fun hd => hd⟩) rfl rfl rfl
    split
    · have hruns : Consistent
          { acc.1 with runs := acc.1.runs.update runId (interruptedRun now) } :=
        h.updateRun (k := runId) (f := interruptedRun now)
          (fun r _ => (interruptedRun_movesOn now r).toKeepsClaim) rfl rfl rfl
      exact hruns.updateAutomation (k := run.automationId) (f := fun a =>
        { a with
          lastRunAt := .kept (iso now)
          lastStatus := .kept .interruptedRestart
          updatedAt := iso now }) (fun _ => rfl) rfl rfl rfl
    · exact h

theorem next_consistent {env : Environment} {s t : Store} {call : Call} (hs : s.Consistent)
    (h : next env s call = some t) : t.Consistent := by
  unfold next at h
  rcases Runs.taken h with ⟨hfresh, rfl⟩
  have hclaim : ∀ uuid, s.state.runs.contains ("autrun_" ++ uuid) = false → s.Fresh uuid := by
    intro uuid hc
    refine ⟨hs, ?_⟩
    simpa [Dict.contains] using hc
  apply outcomes_consistent.perform ?_ hs
  cases call with
  | delete automationId expectedRevision now writes =>
    intro s hs _
    exact ⟨hs.1.deleteAutomation rfl rfl, hs.2⟩
  | claim automationId dueAt key expectedRevision capacityAvailable webSearch uuid now writes =>
    exact ⟨_, hclaim uuid (by simpa [drawsFresh] using hfresh),
      storesClaim_fresh env automationId uuid now⟩
  | runNow automationId capacityAvailable webSearch keyUuid uuid now writes =>
    exact ⟨_, hclaim uuid (by simpa [drawsFresh] using hfresh),
      storesClaim_fresh env automationId uuid now⟩
  | restart now writes =>
    refine ⟨?_, fun s acc runId hs => ⟨hs.1.recoverRun now runId, hs.2⟩⟩
    intro s hs
    refine ⟨?_, hs.2⟩
    cases hsaved : s.saved with
    | none => exact consistent_empty
    | some f => exact hs.2 f hsaved
  | completeByBridgeRun bridgeRunId status error now writes => exact fun _ _ _ _ _ => trivial
  | completeRuntimeRun bridgeRunId clientRequestId unattended status error now writes =>
    exact fun _ _ => trivial
  | _ => trivial

/-- Whatever the calls, their inputs, raises and failed writes, memory and file agree. -/
theorem reachable_consistent (env : Environment) (calls : List Call) (s : Store)
    (h : Runs.exec (next env) Store.initial calls = some s) : Consistent s.state := by
  have hinit : Store.initial.Consistent :=
    ⟨consistent_empty, fun f hf => by cases hf⟩
  exact (Runs.invariant (fun _ _ _ hs hn => next_consistent hs hn) hinit h).1

/-- A manual run started by a fast runtime, a second one refused, and a restart. -/
def sampleCalls : List Call :=
  [.create samplePayload "a" 0 true,
    .runNow "aut_a" true .null "k" "1" 1000000 true,
    .markRunning "autrun_1" (some "run_1") none 2000000 true,
    .runNow "aut_a" true .null "l" "2" 3000000 false,
    .restart 4000000 true]

theorem reachable_consistent_sampleCalls : ∃ s,
    Runs.exec (next sampleEnvironment) Store.initial sampleCalls = some s ∧ Consistent s.state := by
  have hsome : (Runs.exec (next sampleEnvironment) Store.initial sampleCalls).isSome = true := by
    decide +kernel
  obtain ⟨s, hs⟩ := Option.isSome_iff_exists.mp hsome
  exact ⟨s, hs, reachable_consistent sampleEnvironment sampleCalls s hs⟩

/-! ## Runs that are over -/

def Over (k : String) (run : Run) : Prop :=
  run.automationRunId = k → run.status.isActive = false ∧ run.dispatchable = false

theorem lasting_over (k : String) : Lasting (Over k) := by
  intro f r hf hr hk
  obtain ⟨hactive, hidle⟩ := hr (hf.run_id ▸ hk)
  have hstays : (f r).status.isActive = false :=
    Bool.eq_false_iff.mpr fun h => absurd (hf.active h) (Bool.eq_false_iff.mp hactive)
  refine ⟨hstays, Bool.eq_false_iff.mpr fun h => hf.left ?_⟩
  refine (hf.dispatchable ?_).mp h
  rw [hidle]
  refine ⟨fun hd => (by cases hd), fun hq => ?_⟩
  rw [hq] at hactive
  cases hactive

/-- The run that the call would claim is `k`. -/
def Call.draws (k : String) : Call → Bool
  | .claim _ _ _ _ _ _ uuid _ _ => "autrun_" ++ uuid = k
  | .runNow _ _ _ _ uuid _ _ => "autrun_" ++ uuid = k
  | _ => false

/-- A run that is over in memory and in the file is never live again, whatever is called and
restarted, as long as its identifier is not drawn again. -/
theorem over_stays (env : Environment) (k : String) (calls : List Call) (s t : Store)
    (hs : StoreEach (Over k) s)
    (hdraws : Runs.Meets (next env) (fun _ call => call.draws k = false) s calls)
    (h : Runs.exec (next env) s calls = some t) : StoreEach (Over k) t := by
  refine Runs.invariant_of_meets (fun s call t hs hcall hn => ?_) hs hdraws h
  unfold next at hn
  obtain ⟨_, rfl⟩ := Runs.taken hn
  refine hs.perform (lasting_over k) ?_
  cases call with
  | claim automationId dueAt key expectedRevision capacityAvailable webSearch uuid now writes =>
    exact storesClaim_each env fun _ _ _ _ hk => absurd hk (of_decide_eq_false hcall)
  | runNow automationId capacityAvailable webSearch keyUuid uuid now writes =>
    exact storesClaim_each env fun _ _ _ _ hk => absurd hk (of_decide_eq_false hcall)
  | _ => trivial

instance (k : String) (run : Run) : Decidable (Over k run) := inferInstanceAs (Decidable (_ → _))

def completeSample : Call := .complete "autrun_1" .completed none 5000000 true

/-- A late link, a second outcome and a restart. -/
def lateCalls : List Call :=
  [.markRunning "autrun_1" (some "run_1") none 6000000 false, completeSample,
    .restart 7000000 true]

theorem over_stays_lateCalls : ∃ s t,
    Runs.exec (next sampleEnvironment) Store.initial (sampleCalls ++ [completeSample]) = some s ∧
      Runs.exec (next sampleEnvironment) s lateCalls = some t ∧
        t.state.runs.keys = ["autrun_1"] ∧ StoreEach (Over "autrun_1") t := by
  have hrun : (Runs.exec (next sampleEnvironment) Store.initial
      (sampleCalls ++ [completeSample])).any (fun s =>
        (∀ f ∈ s.state :: s.saved.toList, ∀ r ∈ f.runs.values, Over "autrun_1" r) ∧
          Runs.Meets (next sampleEnvironment) (fun _ c => c.draws "autrun_1" = false) s lateCalls ∧
            (Runs.exec (next sampleEnvironment) s lateCalls).any
              fun t => t.state.runs.keys = ["autrun_1"]) = true := by
    decide +kernel
  obtain ⟨s, hs, hrun⟩ := (Option.any_eq_true _ _).mp hrun
  obtain ⟨hover, hdraws, hrun⟩ := of_decide_eq_true hrun
  obtain ⟨t, ht, hkeys⟩ := (Option.any_eq_true _ _).mp hrun
  have heach : ∀ f ∈ s.state :: s.saved.toList, EachRun (Over "autrun_1") f :=
    fun f hf k r hg => hover f hf r (Dict.mem_values_of_get? hg)
  refine ⟨s, t, hs, ht, of_decide_eq_true hkeys,
    over_stays sampleEnvironment "autrun_1" _ s t ⟨heach _ List.mem_cons_self, ?_⟩ hdraws ht⟩
  intro f hf
  exact heach f (List.mem_cons_of_mem _ (Option.mem_toList.mpr hf))

end CodexBridge.Automations
