import CodexBridge.Automations.LiveRuns

/-! # Occurrences over runs of the store

A history lists what the scheduler was offered and which scheduled runs were
recorded, in order. It is ghost state: no call reads it. The scheduler claims
only what it was offered, under the key of automation, revision and due time.
The argument follows one automation: a stored occurrence lies after every
recorded one, and an offer of the current revision is stored or recorded.
-/

namespace CodexBridge.Automations

open Effect

/-! ## Histories -/

inductive Event where
  | offered (automationId : String) (revision : Nat) (nextRunAt : Int)
  | recorded (automationId : String) (revision : Nat) (dueAt : Int) (status : RunStatus)
  deriving DecidableEq

def Event.automationId : Event → String
  | .offered a _ _ => a
  | .recorded a _ _ _ => a

/-- Whether an event may follow another: an offer lies after every recorded
occurrence, and no occurrence is queued twice. -/
def Event.admits : Event → Event → Bool
  | .recorded a _ d _, .offered a' _ n => a ≠ a' || d < n
  | .recorded a _ d s, .recorded a' _ d' s' =>
    !(a = a' && d = d' && s = .queued && s' = .queued)
  | _, _ => true

def AdmittedOnce (history : List Event) : Prop :=
  history.Pairwise fun e later => e.admits later = true

def IsRecorded (history : List Event) (automationId : String) (dueAt : Int) : Prop :=
  ∃ revision status, Event.recorded automationId revision dueAt status ∈ history

structure World where
  store : Store
  clock : Int
  history : List Event

def World.initial (clock : Int) : World := ⟨Store.initial, clock, []⟩

inductive Step where
  | fire (automationId : String) (revision : Nat) (due : Int) (capacityAvailable : Bool)
      (webSearch : Json) (uuid : String) (now : Int)
  | call (call : Call)

/-- The key `AutomationScheduler._async_fire` derives. -/
def occurrenceKey (env : Environment) (automationId : String) (revision : Nat) (due : Int) :
    String :=
  "automation:" ++ automationId ++ ":" ++ toString revision ++ ":" ++ env.isoText due

def Step.toCall (env : Environment) : Step → Call
  | .fire automationId revision due capacityAvailable webSearch uuid now =>
    .claim automationId (env.isoText due) (occurrenceKey env automationId revision due)
      revision capacityAvailable webSearch uuid now true
  | .call c => c

def Call.now : Call → Int
  | .create _ _ now _ => now
  | .update _ _ _ now _ => now
  | .pause _ _ now _ => now
  | .resume _ _ now _ => now
  | .delete _ _ now _ => now
  | .claim _ _ _ _ _ _ _ now _ => now
  | .runNow _ _ _ _ _ now _ => now
  | .markRunning _ _ _ now _ => now
  | .complete _ _ _ now _ => now
  | .completeByBridgeRun _ _ _ now _ => now
  | .completeRuntimeRun _ _ _ _ _ now _ => now
  | .schedulerSnapshot now _ => now
  | .restart now _ => now

def Call.writes : Call → Bool
  | .create _ _ _ writes => writes
  | .update _ _ _ _ writes => writes
  | .pause _ _ _ writes => writes
  | .resume _ _ _ writes => writes
  | .delete _ _ _ writes => writes
  | .claim _ _ _ _ _ _ _ _ writes => writes
  | .runNow _ _ _ _ _ _ writes => writes
  | .markRunning _ _ _ _ writes => writes
  | .complete _ _ _ _ writes => writes
  | .completeByBridgeRun _ _ _ _ writes => writes
  | .completeRuntimeRun _ _ _ _ _ _ writes => writes
  | .schedulerSnapshot _ writes => writes
  | .restart _ writes => writes

def keepsSchedule (env : Environment) (automations : Dict String Automation)
    (automationId : String) (changes : List (String × Json)) : Bool :=
  match Json.field? changes "schedule", automations.get? automationId with
  | some value, some record => normalizeSchedule env value = .ok record.schedule
  | _, _ => true

/-- The scheduler fires only what it was offered, and the text of an offered time
reads back; a new automation gets an identifier no event mentions. -/
def Step.isAllowed (env : Environment) (w : World) : Step → Bool
  | .fire automationId revision due _ _ _ _ =>
    decide (.offered automationId revision due ∈ w.history) &&
      env.fromIsoformat (env.isoText due) = .instant (instantOf due)
  | .call (.claim ..) => false
  | .call (.create _ uuid _ _) => w.history.all fun e => e.automationId ≠ "aut_" ++ uuid
  | .call (.update automationId changes _ _ _) =>
    keepsSchedule env w.store.state.automations automationId changes
  | .call _ => true

def observe (step : Step) (result : Except AutomationError Reply × Store) : List Event :=
  match step, result.1 with
  | .fire _ revision _ _ _ uuid _, _ =>
    match result.2.state.runs.get? ("autrun_" ++ uuid) with
    | some run => [.recorded run.automationId revision run.dueAt run.status]
    | none => []
  | .call (.schedulerSnapshot _ _), .ok (.offers items) =>
    items.map fun o => .offered o.automationId o.revision o.nextRunAt
  | _, _ => []

/-- Readings never go backwards and file writes go through. -/
def advance (env : Environment) (w : World) (step : Step) : Option World :=
  let call := step.toCall env
  if w.clock ≤ call.now && call.writes && drawsFresh w.store call && step.isAllowed env w then
    let result := perform env call w.store
    some ⟨result.2, call.now, w.history ++ observe step result⟩
  else none

/-- The reading has passed an occurrence; an interval needs it strictly after. -/
def HasPassed (schedule : Schedule) (now dueAt : Int) : Prop :=
  instantOf dueAt ≤ now ∧ (schedule.isInterval = true → instantOf dueAt < now)

/-- `_next_run` at the reading skips every recorded occurrence. -/
structure Recomputable (env : Environment) (history : List Event) (automationId : String)
    (schedule : Schedule) (now : Int) : Prop where
  in_range : ∃ next, nextRun env schedule now = .ok next
  advances : AdvancesAt env schedule now
  rounds : ¬ RoundsDown schedule now
  passed : ∀ dueAt, IsRecorded history automationId dueAt → HasPassed schedule now dueAt

/-- The condition on a step. A repeated claim finds the record of the first still
indexed; a first claim advances in range and forward in time; and where an
occurrence is recomputed from the clock the reading has passed every recorded one. -/
def Admissible (env : Environment) (w : World) : Step → Prop
  | .fire automationId revision due _ _ _ now =>
    w.store.state.idempotency.contains (occurrenceKey env automationId revision due) = true ∨
    (∀ status, .recorded automationId revision due status ∉ w.history) ∧
    ∀ record, w.store.state.automations.get? automationId = some record →
      record.revision = revision →
      AdvancesAt env record.schedule (max (instantOf due) now) ∧
        ∃ next, nextRunAfter env record.schedule (max (instantOf due) now) = .ok next
  | .call (.resume automationId expectedRevision now _) =>
    ∀ record, w.store.state.automations.get? automationId = some record →
      expectedRevision = record.revision → record.enabled = false →
      Recomputable env w.history automationId record.schedule now
  | .call (.update automationId changes expectedRevision now _) =>
    ∀ record, w.store.state.automations.get? automationId = some record →
      expectedRevision = record.revision → record.enabled = true →
      (Json.field? changes "schedule").isSome = true →
      Recomputable env w.history automationId record.schedule now
  | .call (.schedulerSnapshot now _) =>
    ∀ automationId record, w.store.state.automations.get? automationId = some record →
      record.enabled = true → record.nextRunAt = none →
      Recomputable env w.history automationId record.schedule now
  | _ => True

/-- Stored occurrences lie after recorded ones, and an offer of the current revision
is stored or recorded. -/
structure Timed (history : List Event) (automations : Dict String Automation) : Prop where
  automation_id : ∀ k a, automations.get? k = some a → a.automationId = k
  later : ∀ k a n, automations.get? k = some a → a.nextRunAt = some n →
    ∀ d, IsRecorded history k d → d < n
  revision_le : ∀ k a revision n, automations.get? k = some a →
    .offered k revision n ∈ history → revision ≤ a.revision
  current : ∀ k a n, automations.get? k = some a → .offered k a.revision n ∈ history →
    a.nextRunAt = some n ∨ ∃ status, .recorded k a.revision n status ∈ history

def timing (a : Automation) : String × Nat × Option Int :=
  (a.automationId, a.revision, a.nextRunAt)

def LiesAfter (history : List Event) (automationId : String) (next : Option Int) : Prop :=
  ∀ n, next = some n → ∀ d, IsRecorded history automationId d → d < n

/-- The ways a step that records no occurrence moves one automation. -/
inductive Moved (history : List Event) (k : String) (a a' : Automation) : Prop where
  | same (revision : a'.revision = a.revision) (next : a'.nextRunAt = a.nextRunAt)
  | revised (revision : a.revision < a'.revision)
      (next : a'.nextRunAt = a.nextRunAt ∨ LiesAfter history k a'.nextRunAt)
  | filled (revision : a'.revision = a.revision) (empty : a.nextRunAt = none)
      (next : LiesAfter history k a'.nextRunAt)

def Evolves (history : List Event) (before after : Dict String Automation) : Prop :=
  ∀ k a', after.get? k = some a' →
    (a'.automationId = k ∧ ∀ e ∈ history, e.automationId ≠ k) ∨
    ∃ a, before.get? k = some a ∧ a'.automationId = a.automationId ∧ Moved history k a a'

theorem Timed.evolves {history : List Event} {before after : Dict String Automation}
    (h : Timed history before) (he : Evolves history before after) : Timed history after := by
  constructor
  · intro k a' hg
    rcases he k a' hg with ⟨hid, -⟩ | ⟨a, ha, hid, -⟩
    · exact hid
    · rw [hid]
      exact h.automation_id k a ha
  · intro k a' n hg hn d hd
    rcases he k a' hg with ⟨-, hnew⟩ | ⟨a, ha, -, hmoved⟩
    · obtain ⟨revision, status, hm⟩ := hd
      exact absurd rfl (hnew _ hm)
    cases hmoved with
    | same _ hnext => exact h.later k a n ha (by rw [← hnext, hn]) d hd
    | revised _ hnext =>
      rcases hnext with hsame | hlater
      · exact h.later k a n ha (by rw [← hsame, hn]) d hd
      · exact hlater n hn d hd
    | filled _ _ hlater => exact hlater n hn d hd
  · intro k a' revision n hg hm
    rcases he k a' hg with ⟨-, hnew⟩ | ⟨a, ha, -, hmoved⟩
    · exact absurd rfl (hnew _ hm)
    have hle := h.revision_le k a revision n ha hm
    cases hmoved with
    | same hrev _ => omega
    | revised hrev _ => omega
    | filled hrev _ _ => omega
  · intro k a' n hg hm
    rcases he k a' hg with ⟨-, hnew⟩ | ⟨a, ha, -, hmoved⟩
    · exact absurd rfl (hnew _ hm)
    cases hmoved with
    | same hrev hnext =>
      rw [hrev] at hm
      rw [hrev, hnext]
      exact h.current k a n ha hm
    | revised hrev _ =>
      have hle := h.revision_le k a a'.revision n ha hm
      omega
    | filled hrev hempty _ =>
      rw [hrev] at hm
      rcases h.current k a n ha hm with hstored | hrecorded
      · rw [hempty] at hstored
        cases hstored
      · rw [hrev]
        exact Or.inr hrecorded

def Retimed (before : Dict String Automation) (automationId : String) (next : Option Int)
    (after : Dict String Automation) : Prop :=
  ∀ k a', after.get? k = some a' → ∃ a, before.get? k = some a ∧
    timing a' = (a.automationId, a.revision, if k = automationId then next else a.nextRunAt)

/-- The first claim of an offered occurrence is for the stored one, so it lies after
every recorded occurrence and nothing was queued for it. -/
theorem Timed.record {history : List Event} {before after : Dict String Automation}
    (h : Timed history before) {k : String} {record : Automation} {due now : Int}
    {next : Option Int} (status : RunStatus) (hrecord : before.get? k = some record)
    (hoffered : .offered k record.revision due ∈ history)
    (hfirst : ∀ status, .recorded k record.revision due status ∉ history)
    (hnext : ∀ n, next = some n → max (instantOf due) now < instantOf n)
    (hafter : Retimed before k next after) :
    Timed (history ++ [.recorded k record.revision due status]) after ∧
      ∀ d, IsRecorded history k d → d < due := by
  have hstored : record.nextRunAt = some due := by
    rcases h.current k record due hrecord hoffered with hs | ⟨status, hs⟩
    · exact hs
    · exact absurd hs (hfirst status)
  have hpast : ∀ d, IsRecorded history k d → d < due :=
    h.later k record due hrecord hstored
  have hoff : ∀ k' revision n, Event.offered k' revision n ∈
      history ++ [.recorded k record.revision due status] →
      .offered k' revision n ∈ history := by
    intro k' revision n hm
    simpa using hm
  refine ⟨?_, hpast⟩
  constructor
  · intro k' a' hg
    obtain ⟨a, ha, ht⟩ := hafter k' a' hg
    simp only [timing, Prod.mk.injEq] at ht
    rw [ht.1]
    exact h.automation_id k' a ha
  · intro k' a' n hg hn d hd
    obtain ⟨a, ha, ht⟩ := hafter k' a' hg
    simp only [timing, Prod.mk.injEq] at ht
    obtain ⟨revision, st, hm⟩ := hd
    simp only [List.mem_append, List.mem_singleton, Event.recorded.injEq] at hm
    by_cases hk : k' = k
    · rw [if_pos hk, hn] at ht
      have hlt := hnext n ht.2.2.symm
      unfold instantOf at hlt
      rcases hm with hold | ⟨-, -, rfl, -⟩
      · have hdue := hpast d ⟨revision, st, hk ▸ hold⟩
        omega
      · omega
    · rw [if_neg hk] at ht
      rcases hm with hold | ⟨hkk, -⟩
      · exact h.later k' a n ha (by rw [← ht.2.2, hn]) d ⟨revision, st, hold⟩
      · exact absurd hkk hk
  · intro k' a' revision n hg hm
    obtain ⟨a, ha, ht⟩ := hafter k' a' hg
    simp only [timing, Prod.mk.injEq] at ht
    rw [ht.2.1]
    exact h.revision_le k' a revision n ha (hoff _ _ _ hm)
  · intro k' a' n hg hm
    obtain ⟨a, ha, ht⟩ := hafter k' a' hg
    simp only [timing, Prod.mk.injEq] at ht
    have hm' := hoff _ _ _ hm
    rw [ht.2.1] at hm'
    by_cases hk : k' = k
    · subst hk
      rw [hrecord] at ha
      cases ha
      rw [ht.2.1]
      rcases h.current k' record n hrecord hm' with hs | ⟨st, hs⟩
      · rw [hstored] at hs
        cases hs
        exact Or.inr ⟨status, by simp⟩
      · exact Or.inr ⟨st, by simp [hs]⟩
    · rw [if_neg hk] at ht
      rw [ht.2.1, ht.2.2]
      rcases h.current k' a n ha hm' with hs | ⟨st, hs⟩
      · exact Or.inl hs
      · exact Or.inr ⟨st, by simp [hs]⟩

theorem Timed.offer {history : List Event} {automations : Dict String Automation}
    (h : Timed history automations) {offers : List Offer}
    (hstored : ∀ o ∈ offers, ∃ a, automations.get? o.automationId = some a ∧
      a.revision = o.revision ∧ a.nextRunAt = some o.nextRunAt) :
    Timed (history ++ offers.map fun o => .offered o.automationId o.revision o.nextRunAt)
      automations := by
  have hrec : ∀ k revision d status, Event.recorded k revision d status ∈
      history ++ offers.map (fun o => .offered o.automationId o.revision o.nextRunAt) →
      .recorded k revision d status ∈ history := by
    intro k revision d status hm
    simpa using hm
  constructor
  · exact h.automation_id
  · intro k a n hg hn d hd
    obtain ⟨revision, status, hm⟩ := hd
    exact h.later k a n hg hn d ⟨revision, status, hrec _ _ _ _ hm⟩
  · intro k a revision n hg hm
    simp only [List.mem_append, List.mem_map, Event.offered.injEq] at hm
    rcases hm with hold | ⟨o, ho, rfl, rfl, rfl⟩
    · exact h.revision_le k a revision n hg hold
    obtain ⟨b, hb, hrev, -⟩ := hstored o ho
    rw [hg] at hb
    cases hb
    omega
  · intro k a n hg hm
    simp only [List.mem_append, List.mem_map, Event.offered.injEq] at hm
    rcases hm with hold | ⟨o, ho, rfl, -, rfl⟩
    · rcases h.current k a n hg hold with hs | ⟨status, hs⟩
      · exact Or.inl hs
      · exact Or.inr ⟨status, by simp [hs]⟩
    obtain ⟨b, hb, -, hnext⟩ := hstored o ho
    rw [hg] at hb
    cases hb
    exact Or.inl hnext

theorem nextRun_gt_of_hasPassed {env : Environment} {schedule : Schedule} {now next d : Int}
    (ha : AdvancesAt env schedule now) (hup : ¬ RoundsDown schedule now)
    (h : nextRun env schedule now = .ok (some next)) (hd : HasPassed schedule now d) :
    d < next := by
  have hlt : instantOf d < instantOf next := by
    cases schedule with
    | once at_ =>
      have hpast := hd.1
      simp only [nextRun, Except.ok.injEq] at h
      rcases Runs.taken h with ⟨hgt, rfl⟩
      omega
    | interval seconds anchorAt =>
      have hpast := hd.2 rfl
      have hge := nextRun_interval_ge ha hup h
      omega
    | rrule rule startAt timezone =>
      have hpast := hd.1
      simp only [nextRun, Except.ok.injEq] at h
      have hgt := ha next h
      omega
  unfold instantOf at hlt
  omega

theorem Recomputable.liesAfter {env : Environment} {history : List Event} {k : String}
    {schedule : Schedule} {now : Int} (h : Recomputable env history k schedule now)
    {next : Option Int} (hnext : nextRun env schedule now = .ok next) :
    LiesAfter history k next := by
  intro n hn d hd
  rw [hn] at hnext
  exact nextRun_gt_of_hasPassed h.advances h.rounds hnext (h.passed d hd)

end CodexBridge.Automations
