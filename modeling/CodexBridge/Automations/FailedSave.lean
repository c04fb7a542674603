import CodexBridge.Automations.Timing

/-! # A save that fails

Every mutation edits the state in memory and saves it last. Where the save raises, the edit
stays: the memory then differs from what it was before the call, and from the file if the
file was up to date.
-/

namespace CodexBridge.Automations

open Effect

/-! ## Calls that differ in their write -/

/-- Two calls do the same from `P`, or the first ends in `Q`. -/
def Parts {α : Type} (P Q : Store → Prop) (c d : StoreAction α) : Prop :=
  ∀ s, P s → c s = d s ∨ Q (c s).2

section

variable {α β : Type} {P Q : Store → Prop} {R : α → Store → Prop} {c : StoreAction α}
  {f g : α → StoreAction β}

theorem Parts.refl : Parts P Q c c := fun _ _ => Or.inl rfl

theorem Parts.bind (hc : Triple P c R fun _ _ => True) (hf : ∀ a, Parts (R a) Q (f a) (g a)) :
    Parts P Q (c >>= f) (c >>= g) := by
  intro s hs
  rw [bind_run, bind_run]
  cases hr : c s with
  | mk r t =>
    cases r with
    | ok a => exact hf a t ((hc s hs).1 a t hr)
    | error e => exact Or.inl rfl

theorem Parts.bind_of (hc : Keeps P c) (hf : ∀ a, Parts P Q (f a) (g a)) :
    Parts P Q (c >>= f) (c >>= g) :=
  Parts.bind (hc.raises fun _ _ _ => trivial) hf

theorem Parts.lift {r : Except AutomationError α} (hf : ∀ a, r = .ok a → Parts P Q (f a) (g a)) :
    Parts P Q (Effect.lift r >>= f) (Effect.lift r >>= g) := by
  intro s hs
  cases r with
  | ok a => exact hf a rfl s hs
  | error e => exact Or.inl rfl

theorem Parts.require {test : Bool} {e : AutomationError} {f g : Unit → StoreAction β}
    (hf : test = true → Parts P Q (f ()) (g ())) :
    Parts P Q (Effect.require test e >>= f) (Effect.require test e >>= g) := by
  intro s hs
  cases test with
  | true => exact hf rfl s hs
  | false => exact Or.inl rfl

theorem Parts.edit {F : State → State} {M : Store → Prop} {f g : Unit → StoreAction β}
    (h : ∀ s, P s → M { s with state := F s.state }) (hf : Parts M Q (f ()) (g ())) :
    Parts P Q (edit F >>= f) (edit F >>= g) := fun s hs => hf _ (h s hs)

/-- The reply that a call is turned into does not matter. -/
theorem Parts.reply {r : α → β} {d : StoreAction α} (h : Parts P Q c d) :
    Parts P Q (c >>= fun a => Pure.pure (r a)) (d >>= fun a => Pure.pure (r a)) := by
  intro s hs
  rw [bind_run, bind_run]
  rcases h s hs with heq | hq
  · exact Or.inl (by rw [heq])
  refine Or.inr ?_
  cases hr : c s with
  | mk r t =>
    rw [hr] at hq
    cases r with
    | ok a => exact hq
    | error e => exact hq

end

/-! ## What a save shows -/

def Visible {β : Type} (look : State → β) : Prop :=
  ∀ env s, look (pruneCreateRequests env s).1 = look s

theorem visible_automation (k : String) : Visible fun s => s.automations.get? k := by
  intro env s
  unfold pruneCreateRequests
  dsimp only
  split <;> rfl

theorem visible_run (k : String) : Visible fun s => s.runs.get? k := by
  intro env s
  unfold pruneCreateRequests
  dsimp only
  split <;> rfl

/-- The state shows `value`, or no longer does. -/
def Shows {β : Type} (look : State → β) (value : β) (s : Store) : Prop := look s.state = value

def Hides {β : Type} (look : State → β) (value : β) (s : Store) : Prop := look s.state ≠ value

section

variable {α β : Type} {look : State → β} {value : β} {env : Environment}

theorem hides_pruneCreateRequests (hlook : Visible look) {s : Store} (h : Hides look value s) :
    look (pruneCreateRequests env s.state).1 ≠ value := by
  rw [hlook env s.state]
  exact h

theorem Parts.save_only (hlook : Visible look) :
    Parts (Hides look value) (Hides look value) (Automations.save env false)
      (Automations.save env true) :=
  fun _ hs => Or.inr (hides_pruneCreateRequests hlook hs)

theorem Parts.save (hlook : Visible look) {f : Unit → StoreAction α} :
    Parts (Hides look value) (Hides look value) (Automations.save env false >>= f)
      (Automations.save env true >>= f) :=
  fun _ hs => Or.inr (hides_pruneCreateRequests hlook hs)

end

section

variable {env : Environment} {k : String} {value : Option Run} {record : Option Automation}

/-- A call on the automation under `k`. -/
abbrev PartsAutomation {α : Type} (k : String) (record : Option Automation)
    (c d : StoreAction α) : Prop :=
  Parts (Shows (fun s => s.automations.get? k) record)
    (Hides (fun s => s.automations.get? k) record) c d

/-- A call on the run under `k`. -/
abbrev PartsRun {α : Type} (k : String) (value : Option Run) (c d : StoreAction α) : Prop :=
  Parts (Shows (fun s => s.runs.get? k) value) (Hides (fun s => s.runs.get? k) value) c d

theorem createRecord_parts (payload : List (String × Json)) (request : Option (String × String))
    (now : Int) :
    PartsAutomation k none (createRecord env payload request k now false)
      (createRecord env payload request k now true) := by
  apply Parts.lift
  intro stored hstored
  have hid := (newRecord_spec hstored).1
  refine Parts.edit (M := Hides (fun s => s.automations.get? k) none) ?_
    (Parts.save (visible_automation k))
  intro s _
  show (s.state.automations.set stored.automationId stored).get? k ≠ none
  rw [hid, Dict.get?_set, if_pos rfl]
  exact Option.some_ne_none stored

theorem create_parts (payload : List (String × Json)) (uuid : String) (now : Int) :
    PartsAutomation ("aut_" ++ uuid) none (create env payload uuid now false)
      (create env payload uuid now true) := by
  apply Parts.lift
  intro request _
  cases request with
  | none => exact createRecord_parts payload none now
  | some requestId =>
    apply Parts.bind_of Keeps.read
    intro prior
    cases prior with
    | none => exact createRecord_parts payload _ now
    | some prior => exact Parts.refl

theorem update_parts (changes : List (String × Json)) (expectedRevision now : Int) :
    PartsAutomation k record (update env k changes expectedRevision now false)
      (update env k changes expectedRevision now true) := by
  apply Parts.bind ((findAutomation_spec k).raises fun _ _ _ => trivial)
  intro found
  apply Parts.require
  intro _
  apply Parts.require
  intro _
  apply Parts.lift
  intro normalized hnormalized
  have hrevision := (newRecord_spec hnormalized).2.1
  refine Parts.edit (M := Hides (fun s => s.automations.get? k) record) ?_
    (Parts.save (visible_automation k))
  intro s hs
  have hrecord : record = some found := hs.1.symm.trans hs.2
  show (s.state.automations.set k (carryOver found changes normalized)).get? k ≠ record
  rw [hrecord, Dict.get?_set, if_pos rfl]
  intro heq
  have hsame := congrArg Automation.revision (Option.some.inj heq)
  rw [show (carryOver found changes normalized).revision = normalized.revision from rfl] at hsame
  omega

theorem setEnabled_parts (enabled : Bool) (expectedRevision now : Int) :
    PartsAutomation k record (setEnabled env k enabled expectedRevision now false)
      (setEnabled env k enabled expectedRevision now true) := by
  apply Parts.bind ((findAutomation_spec k).raises fun _ _ _ => trivial)
  intro found
  apply Parts.require
  intro _
  by_cases heq : found.enabled = enabled
  · rw [if_pos heq, if_pos heq]
    exact Parts.refl
  rw [if_neg heq, if_neg heq]
  have hstep : ∀ s : Store, (Shows (fun s => s.automations.get? k) record s ∧
      s.state.automations.get? k = some found) → ∀ r, record = some r → r.enabled ≠ enabled := by
    intro s hs r hr
    have hfound := hs.1.symm.trans hs.2
    rw [hr] at hfound
    cases hfound
    exact heq
  -- the switch is turned, whatever else the calls store
  refine Parts.edit (M := fun s => ∃ r, s.state.automations.get? k = some r ∧
    r.enabled = enabled ∧ ∀ r', record = some r' → r'.enabled ≠ enabled) ?_ ?_
  · intro s hs
    have hupdated := (Dict.get?_update s.state.automations k (fun r =>
      { r with enabled := enabled, revision := r.revision + 1, updatedAt := iso now }) k).trans
        (if_pos rfl)
    rw [hs.2] at hupdated
    exact ⟨_, hupdated, rfl, hstep s hs⟩
  apply Parts.lift
  intro next _
  refine Parts.edit (M := Hides (fun s => s.automations.get? k) record) ?_
    (Parts.save (visible_automation k))
  intro s hs
  obtain ⟨r, hr, henabled, hbefore⟩ := hs
  show (s.state.automations.update k _).get? k ≠ record
  rw [Dict.get?_update, if_pos rfl, hr]
  intro hsame
  exact hbefore _ hsame.symm henabled

theorem delete_parts (expectedRevision now : Int) :
    PartsAutomation k record (delete env k expectedRevision now false)
      (delete env k expectedRevision now true) := by
  apply Parts.bind ((findAutomation_spec k).raises fun _ _ _ => trivial)
  intro found
  apply Parts.require
  intro _
  apply Parts.require
  intro _
  apply Parts.bind_of Keeps.read
  intro active
  apply Parts.require
  intro _
  refine Parts.edit (M := Hides (fun s => s.automations.get? k) record) ?_
    (Parts.save_only (visible_automation k))
  intro s hs
  have hrecord : record = some found := hs.1.symm.trans hs.2
  show (s.state.automations.erase k).get? k ≠ record
  rw [hrecord, Dict.get?_erase, if_pos rfl]
  exact (Option.some_ne_none found).symm

theorem claimNew_parts (automationId : String) (request : ClaimRequest)
    (expectedRevision : Int) (uuid : String) (now : Int) :
    PartsRun ("autrun_" ++ uuid) none
      (claimNew env automationId request expectedRevision uuid now false)
      (claimNew env automationId request expectedRevision uuid now true) := by
  apply Parts.bind_of (keeps_findAutomation automationId)
  intro found
  apply Parts.require
  intro _
  apply Parts.bind_of Keeps.read
  intro status
  have hsaves : ∀ run : Run, run.automationRunId = "autrun_" ++ uuid →
      Parts (fun s => s.state.runs.get? ("autrun_" ++ uuid) = some run)
        (Hides (fun s => s.runs.get? ("autrun_" ++ uuid)) none)
        (do
          editAutomation automationId fun r => { r with updatedAt := iso now }
          edit (pruneRuns env [run.automationRunId])
          save env false
          pure run)
        (do
          editAutomation automationId fun r => { r with updatedAt := iso now }
          edit (pruneRuns env [run.automationRunId])
          save env true
          pure run) := by
    intro run hid
    refine Parts.edit (M := fun s => s.state.runs.get? ("autrun_" ++ uuid) = some run)
      (fun s hs => hs) ?_
    refine Parts.edit (M := Hides (fun s => s.runs.get? ("autrun_" ++ uuid)) none) ?_
      (Parts.save (visible_run _))
    intro s hs
    have hkept : (pruneRuns env [run.automationRunId] s.state).runs.get? ("autrun_" ++ uuid) =
        some run := pruneRuns_get?_of_protected (List.mem_singleton.mpr hid.symm) hs
    exact fun hnone => Option.some_ne_none run (hkept.symm.trans hnone)
  refine Parts.edit (M := fun s => s.state.runs.get? ("autrun_" ++ uuid) =
    some (claimedRun ("autrun_" ++ uuid) automationId found request status now)) ?_ ?_
  · intro s _
    exact (Dict.get?_set _ _ _ _).trans (if_pos rfl)
  cases hsource : request.source with
  | manual => exact hsaves _ rfl
  | scheduled =>
    dsimp only
    apply Parts.lift
    intro next _
    exact Parts.edit (fun s hs => hs) (hsaves _ rfl)

theorem claimKeyed_parts (automationId : String) (request : ClaimRequest)
    (expectedRevision : Int) (uuid : String) (now : Int) :
    PartsRun ("autrun_" ++ uuid) none
      (claimKeyed env automationId request expectedRevision uuid now false)
      (claimKeyed env automationId request expectedRevision uuid now true) := by
  apply Parts.lift
  intro key _
  apply Parts.bind_of Keeps.read
  intro existing
  cases existing with
  | none => exact claimNew_parts automationId request expectedRevision uuid now
  | some existingId => exact Parts.refl

theorem complete_parts {P : Store → Prop} (status : RunStatus) (error : Option Json) (now : Int)
    (hbefore : ∀ s run, P s → s.state.runs.get? k = some run → run.status.isActive = true →
      ∀ r, value = some r → r.status.isActive = true) :
    Parts P (Hides (fun s => s.runs.get? k) value) (complete env k status error now false)
      (complete env k status error now true) := by
  apply Parts.require
  intro hterminal
  apply Parts.bind ((findRun_spec k).raises fun _ _ _ => trivial)
  intro run
  apply Parts.require
  intro hactive
  -- the run is over now
  have hedited : ∀ s : Store, P s ∧ s.state.runs.get? k = some run →
      (∀ r, value = some r → r.status.isActive = true) ∧
        (s.state.runs.update k (completedRun status error now)).get? k =
          some (completedRun status error now run) := by
    intro s hs
    refine ⟨hbefore s run hs.1 hs.2 hactive, (Dict.get?_update _ _ _ _).trans ?_⟩
    rw [if_pos rfl, hs.2]
    rfl
  refine Parts.edit hedited (M := fun s => (∀ r, value = some r → r.status.isActive = true) ∧
    s.state.runs.get? k = some (completedRun status error now run)) ?_
  apply Parts.bind_of (keeps_findAutomation run.automationId)
  intro _
  refine Parts.edit (M := fun s => (∀ r, value = some r → r.status.isActive = true) ∧
    s.state.runs.get? k = some (completedRun status error now run)) (fun s hs => hs) ?_
  refine Parts.edit (M := Hides (fun s => s.runs.get? k) value) ?_ (Parts.save (visible_run k))
  intro s hs
  have hkept : (pruneRuns env [k] s.state).runs.get? k = _ :=
    pruneRuns_get?_of_protected (List.mem_singleton_self k) hs.2
  intro heq
  have hstill := hs.1 _ (heq.symm.trans hkept)
  rw [show (completedRun status error now run).status = status from rfl,
    RunStatus.isActive_eq_false_of_isTerminal hterminal] at hstill
  cases hstill

theorem markRunning_parts (bridgeRunId threadId : Option String) (now : Int) :
    PartsRun k value (markRunning env k bridgeRunId threadId now false)
      (markRunning env k bridgeRunId threadId now true) := by
  apply Parts.bind ((findRun_spec k).raises fun _ _ _ => trivial)
  intro run
  apply Parts.lift
  intro bridge _
  apply Parts.lift
  intro thread _
  by_cases hqueued : run.status = .queued
  · rw [if_pos hqueued, if_pos hqueued]
    refine Parts.edit (M := Hides (fun s => s.runs.get? k) value) ?_ (Parts.save (visible_run k))
    intro s hs
    have hvalue : value = some run := hs.1.symm.trans hs.2
    show (s.state.runs.update k _).get? k ≠ value
    rw [hvalue, Dict.get?_update, if_pos rfl, hs.2]
    intro heq
    have hstatus := congrArg Run.status (Option.some.inj heq)
    rw [hqueued] at hstatus
    cases hstatus
  · rw [if_neg hqueued, if_neg hqueued]
    apply Parts.require
    intro _
    by_cases hpending : isPendingRuntimeLink run = true
    · rw [if_pos hpending, if_pos hpending]
      refine Parts.edit (M := fun s => value = some run ∧ s.state.runs.get? k =
        some { run with startedAt := some (iso now), threadId := thread }) ?_ ?_
      · intro s hs
        refine ⟨hs.1.symm.trans hs.2, (Dict.get?_update _ _ _ _).trans ?_⟩
        rw [if_pos rfl, hs.2]
        rfl
      refine Parts.edit (M := Hides (fun s => s.runs.get? k) value) ?_
        (Parts.save (visible_run k))
      intro s hs
      have hkept : (pruneRuns env [k] s.state).runs.get? k = _ :=
        pruneRuns_get?_of_protected (List.mem_singleton_self k) hs.2
      intro heq
      have hsame := (heq.symm.trans hkept).symm.trans hs.1
      have hstarted := congrArg Run.startedAt (Option.some.inj hsame)
      unfold isPendingRuntimeLink at hpending
      rw [← hstarted] at hpending
      simp at hpending
    · rw [if_neg hpending, if_neg hpending]
      exact Parts.refl

/-- The link is stored first, and the outcome then hides the active run. -/
theorem completeRuntimeRun_parts (bridgeRunId clientRequestId : String) (unattended : Bool)
    (status : RunStatus) (error : Option Json) (now : Int)
    (hk : automationRunIdOf clientRequestId = some k) :
    PartsRun k value
      (completeRuntimeRun env bridgeRunId clientRequestId unattended status error now false)
      (completeRuntimeRun env bridgeRunId clientRequestId unattended status error now true) := by
  apply Parts.require
  intro _
  rw [hk]
  apply Parts.require
  intro _
  apply Parts.lift
  intro bridge _
  apply Parts.bind (R := fun run s => Shows (fun s => s.runs.get? k) value s ∧
    s.state.runs.get? k = some run)
  · exact Triple.attempt ((findRun_spec k).weaken (fun _ hs => hs) (fun _ _ hs => hs)
      fun _ _ hs => hs) fun _ => Triple.raise fun _ _ => trivial
  intro run
  apply Parts.require
  intro _
  by_cases hactive : run.status.isActive = true
  · rw [if_pos hactive, if_pos hactive]
    refine Parts.edit (M := fun _ => value = some run) (fun s hs => hs.1.symm.trans hs.2)
      (complete_parts status error now ?_)
    intro s _ hvalue _ _ r hr
    rw [hvalue] at hr
    cases hr
    exact hactive
  · rw [if_neg hactive, if_neg hactive]
    exact Parts.refl

end

/-- The mutating calls with their arguments, the write apart. -/
inductive Mutation where
  | create (payload : List (String × Json)) (uuid : String) (now : Int)
  | update (automationId : String) (changes : List (String × Json)) (expectedRevision now : Int)
  | pause (automationId : String) (expectedRevision now : Int)
  | resume (automationId : String) (expectedRevision now : Int)
  | delete (automationId : String) (expectedRevision now : Int)
  | claim (automationId dueAt idempotencyKey : String) (expectedRevision : Int)
      (capacityAvailable : Bool) (webSearch : Json) (uuid : String) (now : Int)
  | runNow (automationId : String) (capacityAvailable : Bool) (webSearch : Json)
      (keyUuid uuid : String) (now : Int)
  | markRunning (runId : String) (bridgeRunId threadId : Option String) (now : Int)
  | complete (runId : String) (status : RunStatus) (error : Option Json) (now : Int)
  | completeRuntimeRun (bridgeRunId clientRequestId : String) (unattended : Bool)
      (status : RunStatus) (error : Option Json) (now : Int)

def Mutation.call (writes : Bool) : Mutation → Call
  | .create payload uuid now => .create payload uuid now writes
  | .update automationId changes expectedRevision now =>
    .update automationId changes expectedRevision now writes
  | .pause automationId expectedRevision now => .pause automationId expectedRevision now writes
  | .resume automationId expectedRevision now => .resume automationId expectedRevision now writes
  | .delete automationId expectedRevision now => .delete automationId expectedRevision now writes
  | .claim automationId dueAt idempotencyKey expectedRevision capacityAvailable webSearch uuid
      now =>
    .claim automationId dueAt idempotencyKey expectedRevision capacityAvailable webSearch uuid
      now writes
  | .runNow automationId capacityAvailable webSearch keyUuid uuid now =>
    .runNow automationId capacityAvailable webSearch keyUuid uuid now writes
  | .markRunning runId bridgeRunId threadId now =>
      .markRunning runId bridgeRunId threadId now writes
  | .complete runId status error now => .complete runId status error now writes
  | .completeRuntimeRun bridgeRunId clientRequestId unattended status error now =>
    .completeRuntimeRun bridgeRunId clientRequestId unattended status error now writes

/-- The write is what the call fails for: with a write that goes through it does not. -/
def SaveRaises (env : Environment) (m : Mutation) (s : Store) : Prop :=
  (perform env (m.call false) s).1 = .error .storage ∧
    (perform env (m.call true) s).1 ≠ .error .storage

theorem Parts.state_ne {α β : Type} {look : State → β} {s : Store} {c d : StoreAction α}
    (h : Parts (Shows look (look s.state)) (Hides look (look s.state)) c d)
    (hne : c s ≠ d s) : (c s).2.state ≠ s.state := by
  intro heq
  rcases h s rfl with hsame | hhides
  · exact hne hsame
  · exact hhides (congrArg look heq)

theorem state_ne_of_saveRaises (env : Environment) (m : Mutation) (s : Store)
    (hfresh : drawsFresh s (m.call false) = true) (h : SaveRaises env m s) :
    (perform env (m.call false) s).2.state ≠ s.state := by
  have hne : perform env (m.call false) s ≠ perform env (m.call true) s := by
    intro heq
    rw [SaveRaises, heq] at h
    exact h.2 h.1
  have hnone : ∀ {α : Type} {d : Dict String α} {k : String}, (!d.contains k) = true →
      d.get? k = none := by
    intro α d k hk
    simpa [Dict.contains] using hk
  cases m with
  | create payload uuid now =>
    have hparts : PartsAutomation ("aut_" ++ uuid) none (create env payload uuid now false)
        (create env payload uuid now true) := create_parts payload uuid now
    rw [← hnone hfresh] at hparts
    exact hparts.reply.state_ne hne
  | update automationId changes expectedRevision now =>
    exact (update_parts changes expectedRevision now).reply.state_ne hne
  | pause automationId expectedRevision now =>
    exact (setEnabled_parts false expectedRevision now).reply.state_ne hne
  | resume automationId expectedRevision now =>
    exact (setEnabled_parts true expectedRevision now).reply.state_ne hne
  | delete automationId expectedRevision now =>
    exact (delete_parts expectedRevision now).reply.state_ne hne
  | claim automationId dueAt key expectedRevision capacityAvailable webSearch uuid now =>
    have hparts : PartsRun ("autrun_" ++ uuid) none
        (claim env automationId dueAt key expectedRevision capacityAvailable webSearch uuid now
          false)
        (claim env automationId dueAt key expectedRevision capacityAvailable webSearch uuid now
          true) := by
      apply Parts.lift
      intro due _
      apply Parts.lift
      intro search _
      exact claimKeyed_parts automationId _ expectedRevision uuid now
    rw [← hnone hfresh] at hparts
    exact hparts.reply.state_ne hne
  | runNow automationId capacityAvailable webSearch keyUuid uuid now =>
    have hparts : PartsRun ("autrun_" ++ uuid) none
        (runNow env automationId capacityAvailable webSearch keyUuid uuid now false)
        (runNow env automationId capacityAvailable webSearch keyUuid uuid now true) := by
      apply Parts.bind_of (keeps_findAutomation automationId)
      intro found
      apply Parts.lift
      intro search _
      exact claimKeyed_parts automationId _ _ uuid now
    rw [← hnone hfresh] at hparts
    exact hparts.reply.state_ne hne
  | markRunning runId bridgeRunId threadId now =>
    exact (markRunning_parts bridgeRunId threadId now).reply.state_ne hne
  | complete runId status error now =>
    have hparts : PartsRun runId (s.state.runs.get? runId)
        (complete env runId status error now false)
        (complete env runId status error now true) := by
      apply complete_parts
      intro t run hshow hrun hactive r hr
      have hsame : some run = some r := hrun.symm.trans (hshow.trans hr)
      cases hsame
      exact hactive
    exact hparts.reply.state_ne hne
  | completeRuntimeRun bridgeRunId clientRequestId unattended status error now =>
    cases hk : automationRunIdOf clientRequestId with
    | some k =>
      exact (completeRuntimeRun_parts bridgeRunId clientRequestId unattended status error now
        hk).reply.state_ne hne
    | none =>
      have hsame : completeRuntimeRun env bridgeRunId clientRequestId unattended status error
          now false = completeRuntimeRun env bridgeRunId clientRequestId unattended status error
            now true := by
        unfold completeRuntimeRun
        rw [hk]
      exact absurd (congrArg (fun c : StoreAction Run =>
        (Reply.run <$> c : StoreAction Reply) s) hsame) hne

/-- The first automation of a new store, with a write that fails. -/
theorem create_failedSave :
    SaveRaises sampleEnvironment (.create samplePayload "0" 0) Store.initial ∧
      (perform sampleEnvironment (.create samplePayload "0" 0 false) Store.initial).2.state ≠
        Store.initial.state := by
  have hraises : SaveRaises sampleEnvironment (.create samplePayload "0" 0) Store.initial := by
    refine ⟨rfl, ?_⟩
    intro h
    cases h
  exact ⟨hraises, state_ne_of_saveRaises sampleEnvironment (.create samplePayload "0" 0)
    Store.initial (by decide) hraises⟩

/-- The automation is in memory, and a restart finds none. -/
theorem create_differs_from_file :
    (perform sampleEnvironment (.create samplePayload "0" 0 false) Store.initial).1 =
        .error .storage ∧
      ((perform sampleEnvironment (.create samplePayload "0" 0 false)
        Store.initial).2.state.automations.contains "aut_0") = true ∧
      ¬ (perform sampleEnvironment (.create samplePayload "0" 0 false) Store.initial).2.state =
        Store.initial.state := by
  refine ⟨rfl, rfl, ?_⟩
  intro h
  have hcontains := congrArg (fun s : State => s.automations.contains "aut_0") h
  cases hcontains

end CodexBridge.Automations
