import CodexBridge.Usage.Ledger

/-! # What a call does to the ledger

A call leaves the ledger alone, admits a run, or replaces one row and its meter. A commit evicts
only when a run is admitted: until then the state stays within its bounds.
-/

namespace CodexBridge.Usage

open Effect

/-! ## Steps -/

inductive Step where
  | start (run : UsageRun) (freshNativeThread : Bool)
  | observe (runId nativeThreadId nativeTurnId : String) (total : Option TokenBreakdown)
      (observedAt : String)
  | finish (runId : String) (status : Status) (finishedAt : String)

def Step.call (env : Environment) (written : Bool) : Step → Call Bool
  | .start run fresh => do
      Usage.start env written run fresh
      pure false
  | .observe runId thread turn total at_ => Usage.observe env written runId thread turn total at_
  | .finish runId status at_ => do
      Usage.finish env written runId status at_
      pure false

/-- A run as the broker builds it, without a report. -/
def UsageRun.IsNew (run : UsageRun) : Prop :=
  run.reportedTokens = none ∧ run.coverage = .not_reported

def tokens (run : UsageRun) : Nat := run.reportedTokens.getD 0

def Step.IsPlain : Step → Prop
  | .start run _ => run.IsNew
  | _ => True

/-! ## What a commit keeps -/

def State.Fits (env : Environment) (s : State) : Prop :=
  s.runs.size ≤ env.maxRuns ∧ s.scopes.size ≤ MAX_SCOPES

variable {env : Environment} {written : Bool} {s t mid : State}

theorem evictRuns_filter (limit : Nat) (rows : List UsageRun) :
    ∃ p, (evictRuns limit rows s).runs = s.runs.filter p := by
  have hself : s.runs = s.runs.filter fun _ _ => true := by
    unfold Dict.filter
    simp only [List.filter_true]
  induction rows generalizing s with
  | nil => exact ⟨_, hself⟩
  | cons first rest ih =>
    unfold evictRuns
    split
    · obtain ⟨p, hp⟩ := @ih { s with
        runs := s.runs.erase first.runId
        evictedRuns := s.evictedRuns + 1 } (by unfold Dict.filter; simp only [List.filter_true])
      refine ⟨fun k v => decide (k ≠ first.runId) && p k v, hp.trans ?_⟩
      unfold Dict.erase Dict.filter
      simp only [List.filter_filter, Bool.and_comm]
    · exact ⟨_, hself⟩

theorem evictRuns_scopes (rows : List UsageRun) (limit : Nat) :
    (evictRuns limit rows s).scopes = s.scopes := by
  induction rows generalizing s with
  | nil => rfl
  | cons first rest ih =>
    unfold evictRuns
    split
    · rw [ih]
    · rfl

theorem evictScopes_runs (entries : List (String × Scope)) :
    (evictScopes entries s).runs = s.runs := by
  induction entries generalizing s with
  | nil => rfl
  | cons entry rest ih =>
    unfold evictScopes
    split
    · rfl
    split
    · exact ih
    · rw [ih]

theorem evictScopes_scopes {entries : List (String × Scope)} {key : String} {scope : Scope}
    (h : (evictScopes entries s).scopes.get? key = some scope) :
    s.scopes.get? key = some scope := by
  induction entries generalizing s with
  | nil => exact h
  | cons entry rest ih =>
    unfold evictScopes at h
    split at h
    · exact h
    split at h
    · exact ih h
    have hkey := ih h
    simp only [Dict.get?_erase] at hkey
    split at hkey
    · cases hkey
    · exact hkey

/-- A commit keeps some of the rows. -/
theorem bound_filter (env : Environment) (s : State) :
    ∃ p, (bound env s).runs = s.runs.filter p := by
  unfold bound
  rw [evictScopes_runs]
  exact evictRuns_filter _ _

theorem bound_runs {runId : String} {row : UsageRun}
    (h : (bound env s).runs.get? runId = some row) : s.runs.get? runId = some row := by
  obtain ⟨p, hp⟩ := bound_filter env s
  rw [hp] at h
  exact ((Dict.get?_filter_eq_some_iff _ _ _ _).mp h).1

theorem bound_scopes {key : String} {scope : Scope}
    (h : (bound env s).scopes.get? key = some scope) : s.scopes.get? key = some scope := by
  have hkept := evictScopes_scopes h
  rwa [evictRuns_scopes] at hkept

theorem bound_of_fits (h : s.Fits env) : bound env s = s := by
  have hruns : ∀ rows, evictRuns env.maxRuns rows s = s := by
    intro rows
    cases rows with
    | nil => rfl
    | cons row rest => exact if_neg (Nat.not_lt.mpr h.1)
  have hscopes : ∀ entries, evictScopes entries s = s := by
    intro entries
    cases entries with
    | nil => rfl
    | cons entry rest => exact if_pos h.2
  unfold bound
  simp only [hruns, hscopes]

/-- From `s` the call raises and changes nothing, or it returns and `Q` holds. -/
abbrev Leads {α : Type} (s : State) (c : Call α) (Q : α → State → Prop) : Prop :=
  Triple (fun t => t = s) c Q fun _ t => t = s

section

variable {α : Type} {Q : α → State → Prop}

theorem leads_pure {a : α} (h : Q a s) : Leads s (pure a) Q :=
  Triple.pure fun _ ht => ht ▸ h

theorem leads_read {f : State → Call α} (h : Leads s (f s) Q) : Leads s (read id >>= f) Q := by
  intro t ht
  cases ht
  exact h s rfl

theorem leads_lift {β : Type} {r : Except Failure β} {f : β → Call α}
    (h : ∀ b, r = .ok b → Leads s (f b) Q) : Leads s (lift r >>= f) Q :=
  Triple.bind_lift (fun _ _ ht => ht) h

theorem leads_require {b : Bool} {e : Failure} {f : Unit → Call α}
    (h : b = true → Leads s (f ()) Q) : Leads s (require b e >>= f) Q :=
  Triple.bind_require (fun _ ht => ht) h

theorem leads_commit {Q : Unit → State → Prop}
    (h : (bound env mid).Fits env → Q () (bound env mid)) :
    Leads s (commit env written mid) Q := by
  unfold commit
  refine leads_require fun hruns => leads_require fun hscopes =>
    leads_require fun _ => leads_require fun _ => ?_
  exact Triple.modify fun _ _ => h ⟨of_decide_eq_true hruns, of_decide_eq_true hscopes⟩

theorem leads_answer {a : α} (h : (bound env mid).Fits env → Q a (bound env mid)) :
    Leads s (do commit env written mid; pure a) Q :=
  Triple.bind (leads_commit h) fun _ => Triple.pure fun _ ht => ht

end

/-! ## What a call does -/

/-- How a row and its meter change together: the meter keeps its total and the row its tokens,
or a snapshot is accepted and the row takes what the total grew by. -/
inductive Advances (row : UsageRun) (meter : Scope) (total : Option TokenBreakdown) :
    UsageRun → Scope → Bool → Prop
  | doubted {row' : UsageRun} {meter' : Scope} (tokens : row'.reportedTokens = row.reportedTokens)
      (watermark : meter'.watermark = meter.watermark) (continuous : meter'.continuous = false)
      (coverage : row'.coverage ≠ .reported) : Advances row meter total row' meter' false
  | accepted {row' : UsageRun} {meter' : Scope} (snapshot : TokenBreakdown)
      (valid : total = some snapshot) (watermark : meter'.watermark = some snapshot)
      (continuous : meter'.continuous = meter.continuous)
      (first : meter.watermark = none → row'.reportedTokens = row.reportedTokens)
      (grown : ∀ previous, meter.watermark = some previous →
        previous.totalTokens ≤ snapshot.totalTokens ∧ row'.reportedTokens =
          some (tokens row + (snapshot.totalTokens - previous.totalTokens)))
      (coverage : row'.coverage = .reported → meter.continuous = true) :
      Advances row meter total row' meter' true

theorem record_spec {row row' : UsageRun} {meter meter' : Scope} {observedAt : String}
    {total : Option TokenBreakdown} {accepted : Bool}
    (h : record env row meter observedAt total = .ok (some (row', meter', accepted))) :
    row'.toIdentity = row.toIdentity ∧ row'.runId = row.runId ∧ meter'.runId = meter.runId ∧
      Advances row meter total row' meter' accepted := by
  have hunsure : (if row.reportedTokens.isSome then Coverage.part else .not_reported) ≠
      .reported := by
    split <;> decide
  unfold record at h
  cases total with
  | none =>
    cases h
    exact ⟨rfl, rfl, rfl, .doubted rfl rfl rfl hunsure⟩
  | some snapshot =>
    simp only at h
    split at h
    · cases h
    split at h
    · cases h
      exact ⟨rfl, rfl, rfl, .doubted rfl rfl rfl Coverage.noConfusion⟩
    split at h
    · rename_i hsame
      split at h
      · rename_i hzero
        cases h
        refine ⟨rfl, rfl, rfl, .accepted snapshot rfl hsame rfl ?_ ?_ ?_⟩
        · intro hnone
          rw [hnone] at hsame
          cases hsame
        · intro previous hprevious
          rw [hprevious] at hsame
          cases hsame
          simp [tokens, hzero.1]
        · exact fun _ => hzero.2.1
      · cases h
    · split at h
      · cases h
        exact ⟨rfl, rfl, rfl, .doubted rfl rfl rfl hunsure⟩
      rename_i hbelow
      obtain ⟨reported, hgrow, he⟩ := except_map_eq_ok.mp h
      cases he
      refine ⟨rfl, rfl, rfl, .accepted snapshot rfl rfl rfl ?_ ?_ ?_⟩
      · intro hnone
        rw [hnone] at hgrow
        cases hgrow
        rfl
      · intro previous hprevious
        rw [hprevious] at hgrow hbelow
        refine ⟨?_, ?_⟩
        · simp only [Option.any_some, TokenBreakdown.isBelow, Bool.or_eq_true,
            decide_eq_true_eq, not_or, Nat.not_lt] at hbelow
          exact hbelow.1.1.1.1.1
        unfold grow at hgrow
        simp only at hgrow
        split at hgrow
        · cases hgrow
        · cases hgrow
          rfl
      · simp only
        intro hcoverage
        split at hcoverage
        · split at hcoverage
          · rename_i hcontinuous
            exact hcontinuous
          · cases hcoverage
        · cases hcoverage

inductive Moves (env : Environment) (s : State) : Step → Bool → State → Prop
  | idle {step : Step}
      (known : ∀ run fresh, step = .start run fresh → s.runs.contains run.runId = true) :
      Moves env s step false s
  | admitted {run : UsageRun} {fresh : Bool} {mid : State} (unknown : s.runs.get? run.runId = none)
      (entered : admitRun s run fresh = .ok mid) (fits : (bound env mid).Fits env) :
      Moves env s (.start run fresh) false (bound env mid)
  | finished {runId at_ : String} {status : Status} {row row' : UsageRun}
      (present : s.runs.get? runId = some row) (identity : row'.toIdentity = row.toIdentity)
      (same : row'.runId = row.runId) (tokens : row'.reportedTokens = row.reportedTokens)
      (coverage : row'.coverage = row.coverage) :
      Moves env s (.finish runId status at_) false { s with runs := s.runs.set runId row' }
  | recorded {runId thread turn : String} {total : Option TokenBreakdown} {observedAt : String}
      {row row' : UsageRun} {meter meter' : Scope} {accepted : Bool}
      (present : s.runs.get? runId = some row) (held : s.scopes.get? (scopeKey row) = some meter)
      (holder : meter.runId = runId)
      (stored : record env row meter observedAt total = .ok (some (row', meter', accepted))) :
      Moves env s (.observe runId thread turn total observedAt) accepted
        { s with
          runs := s.runs.set runId row'
          scopes := s.scopes.set (scopeKey row) meter' }

theorem State.Fits.set_run {runId : String} {row row' : UsageRun} (h : s.Fits env)
    (hrow : s.runs.get? runId = some row) :
    State.Fits env { s with runs := s.runs.set runId row' } :=
  ⟨(Dict.size_set_of_some _ hrow _).trans_le h.1, h.2⟩

theorem start_leads (run : UsageRun) (fresh : Bool) :
    Leads s (start env written run fresh) fun _ => Moves env s (.start run fresh) false := by
  refine leads_lift fun _ _ => leads_read ?_
  split
  · rename_i hrow
    have hidle : Moves env s (.start run fresh) false s := by
      refine .idle ?_
      rintro _ _ ⟨⟩
      exact (Dict.contains_iff _ _).mpr ⟨_, hrow⟩
    exact Triple.require (fun _ ht _ => ht ▸ hidle) fun _ ht _ => ht
  · rename_i hnone
    exact leads_lift fun mid hentered => leads_commit fun hf => .admitted hnone hentered hf

theorem observe_leads (runId thread turn observedAt : String) (total : Option TokenBreakdown)
    (hs : s.Fits env) :
    Leads s (observe env written runId thread turn total observedAt)
      (Moves env s (.observe runId thread turn total observedAt)) := by
  have hidle : Leads s (pure false)
      (Moves env s (.observe runId thread turn total observedAt)) := by
    refine leads_pure (.idle ?_)
    rintro _ _ ⟨⟩
  refine leads_lift fun _ _ => leads_read ?_
  split
  · exact hidle
  rename_i row hrow
  split
  · exact hidle
  split
  · exact hidle
  rename_i meter hmeter
  split
  · exact hidle
  rename_i hholder
  refine leads_lift fun change hrecord => ?_
  split
  · exact hidle
  rename_i row' meter' accepted
  refine leads_answer fun _ => ?_
  rw [bound_of_fits]
  · exact .recorded hrow hmeter (not_not.mp hholder) hrecord
  · exact ⟨(hs.set_run hrow).1, (Dict.size_set_of_some _ hmeter _).trans_le hs.2⟩

theorem finish_leads (runId finishedAt : String) (status : Status) (hs : s.Fits env) :
    Leads s (finish env written runId status finishedAt) fun _ =>
      Moves env s (.finish runId status finishedAt) false := by
  have hidle : Leads s (pure ()) fun _ => Moves env s (.finish runId status finishedAt) false := by
    refine leads_pure (.idle ?_)
    rintro _ _ ⟨⟩
  refine leads_require fun _ => leads_lift fun _ _ => leads_read ?_
  split
  · exact hidle
  rename_i row hrow
  split
  · exact hidle
  refine leads_require fun _ => leads_commit fun _ => ?_
  rw [bound_of_fits (hs.set_run hrow)]
  exact .finished hrow rfl rfl rfl rfl

theorem call_leads (written : Bool) (step : Step) (hs : s.Fits env) :
    Leads s (step.call env written) (Moves env s step) := by
  cases step with
  | start run fresh => exact Triple.bind (start_leads run fresh) fun _ => Triple.pure fun _ h => h
  | observe runId thread turn total observedAt =>
    exact observe_leads runId thread turn observedAt total hs
  | finish runId status finishedAt =>
    exact Triple.bind (finish_leads runId finishedAt status hs) fun _ => Triple.pure fun _ h => h

end CodexBridge.Usage
