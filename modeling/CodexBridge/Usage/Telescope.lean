import CodexBridge.Library.Totals
import CodexBridge.Usage.Moves

/-! # The tokens of a meter telescope

Beside the ledger stands what it does not keep: the rows it evicted, as they were; for every meter
the first total accepted and whether its record was ever evicted; for every run whether its native
thread was fresh and the last total accepted for it.
-/

namespace CodexBridge.Usage

open Effect

def watermark (s : State) (key : String) : Option TokenBreakdown :=
  (s.scopes.get? key).bind Scope.watermark

def count (key : String) (run : UsageRun) : Int := if scopeKey run = key then tokens run else 0

structure World where
  ledger : State
  evicted : List UsageRun
  baseline : String → Option Nat
  lost : String → Bool
  fresh : String → Bool
  accepted : String → Option Nat

def World.empty : World :=
  ⟨.empty, [], fun _ => none, fun _ => false, fun _ => false, fun _ => none⟩

/-- The tokens of all the runs that were ever attached to a meter. -/
def World.reported (w : World) (key : String) : Int :=
  (w.evicted.map (count key)).sum + w.ledger.runs.total fun _ => count key

def evictedRows (before after : State) : List UsageRun :=
  (before.runs.filter fun runId _ => (after.runs.get? runId).isNone).values

/-- The ledger becomes `after`. -/
def World.become (w : World) (after : State) : World :=
  { w with
    ledger := after
    evicted := w.evicted ++ evictedRows w.ledger after
    baseline := fun key =>
      (w.baseline key).or ((watermark after key).map TokenBreakdown.totalTokens)
    lost := fun key => w.lost key || (w.ledger.scopes.contains key && !after.scopes.contains key) }

def World.next (env : Environment) (w : World) (c : Bool × Step) : World :=
  let result := c.2.call env c.1 w.ledger
  let after := w.become result.2
  match c.2, result.1 with
  | .start run fresh, .ok _ =>
    if w.ledger.runs.contains run.runId then after
    else { after with
      fresh := Function.update w.fresh run.runId fresh
      accepted := Function.update w.accepted run.runId none }
  | .observe runId _ _ total _, .ok true =>
    { after with
      accepted :=
        Function.update w.accepted runId (total.map TokenBreakdown.totalTokens) }
  | _, _ => after

def World.run (env : Environment) (w : World) (steps : List (Bool × Step)) : World :=
  steps.foldl (World.next env) w

/-- The tokens of the runs of a meter are what its total grew by since the first. -/
def Telescopes : Option Nat → Int → Option TokenBreakdown → Prop
  | some baseline, reported, some watermark => baseline + reported = watermark.totalTokens
  | none, reported, none => reported = 0
  | _, _, _ => False

/-! ## The sum of a meter -/

variable {env : Environment} {s t : State} {w : World}

theorem Telescopes.or_watermark {baseline : Option Nat} {n : Int}
    {watermark : Option TokenBreakdown} (h : Telescopes baseline n watermark) :
    baseline.or (watermark.map TokenBreakdown.totalTokens) = baseline := by
  cases baseline with
  | some _ => rfl
  | none =>
    cases watermark with
    | none => rfl
    | some _ => cases h

/-- The sum of a meter whose row and record change together. -/
theorem Telescopes.advances {baseline : Option Nat} {n m : Int} {row row' : UsageRun}
    {meter meter' : Scope} {total : Option TokenBreakdown} {accepted : Bool}
    (h : Telescopes baseline n meter.watermark)
    (ha : Advances row meter total row' meter' accepted) (hsum : m = n - tokens row + tokens row') :
    Telescopes (baseline.or (meter'.watermark.map TokenBreakdown.totalTokens)) m
      meter'.watermark := by
  cases ha with
  | doubted htokens hwatermark =>
    have hm : m = n := by
      rw [hsum, tokens, tokens, htokens]
      omega
    rw [hm, hwatermark, h.or_watermark]
    exact h
  | accepted snapshot _ hwatermark _ hfirst hgrown =>
    rw [hwatermark]
    cases hprevious : meter.watermark with
    | none =>
      rw [hprevious] at h
      rw [tokens, tokens, hfirst hprevious] at hsum
      cases baseline with
      | some _ => cases h
      | none =>
        change n = 0 at h
        change (snapshot.totalTokens : Int) + m = snapshot.totalTokens
        omega
    | some previous =>
      obtain ⟨hle, hreported⟩ := hgrown previous hprevious
      have hrow' : tokens row' = tokens row +
          (snapshot.totalTokens - previous.totalTokens) := by
        rw [tokens, hreported]
        rfl
      rw [hprevious] at h
      cases baseline with
      | none => cases h
      | some b =>
        change (b : Int) + n = previous.totalTokens at h
        change (b : Int) + m = snapshot.totalTokens
        omega

theorem evictedRows_eq_nil
    (h : ∀ runId row, s.runs.get? runId = some row → (t.runs.get? runId).isNone = false) :
    evictedRows s t = [] := by
  unfold evictedRows Dict.values
  rw [List.map_eq_nil_iff]
  refine List.filter_eq_nil_iff.mpr fun e he => ?_
  simp [h e.1 e.2 ((Dict.get?_eq_some_iff _ _ _).mpr he)]

theorem reported_become_self (key : String) :
    (w.become w.ledger).reported key = w.reported key := by
  have hnobody : evictedRows w.ledger w.ledger = [] :=
    evictedRows_eq_nil fun runId row hrow => by rw [hrow]; rfl
  unfold World.reported World.become
  simp only [hnobody, List.append_nil]

theorem reported_become_set {runId : String} {row row' : UsageRun}
    (hrow : w.ledger.runs.get? runId = some row) (hruns : t.runs = w.ledger.runs.set runId row')
    (key : String) :
    (w.become t).reported key = w.reported key - count key row + count key row' := by
  have hnobody : evictedRows w.ledger t = [] := by
    refine evictedRows_eq_nil fun other r hr => ?_
    rw [hruns, Dict.get?_set]
    split
    · rfl
    · rw [hr]
      rfl
  unfold World.reported World.become
  simp only [hnobody, List.append_nil, hruns, Dict.total_set_of_some hrow]
  omega

/-- Evictions move rows and take none away; the new row counts nothing yet. -/
theorem reported_become_bound {run : UsageRun} {mid : State}
    (hnone : w.ledger.runs.get? run.runId = none) (hzero : tokens run = 0)
    (hmid : mid.runs = w.ledger.runs.set run.runId run) (key : String) :
    (w.become (bound env mid)).reported key = w.reported key := by
  obtain ⟨p, hp⟩ := bound_filter env mid
  have hrun : count key run = 0 := by
    unfold count
    rw [hzero]
    split
    · rfl
    · rfl
  have hentries := Dict.entries_set_of_none _ hnone run
  have hgone : evictedRows w.ledger (bound env mid) =
      (w.ledger.runs.entries.filter fun e => !p e.1 e.2).map Prod.snd := by
    unfold evictedRows Dict.values Dict.filter
    refine congrArg (List.map Prod.snd) (List.filter_congr fun e he => ?_)
    have hkept : mid.runs.get? e.1 = some e.2 := by
      rw [hmid, Dict.get?_eq_some_iff, hentries]
      exact List.mem_append_left _ he
    change ((bound env mid).runs.get? e.1).isNone = _
    rw [hp, Dict.get?_filter, hkept]
    cases hpe : p e.1 e.2 with
    | false => simp [hpe]
    | true => simp [hpe]
  have htotal := Dict.total_filter mid.runs p fun _ => count key
  rw [hmid, Dict.total_set_of_none hnone, hrun, hentries, List.filter_append, List.map_append,
    List.sum_append] at htotal
  have hlast : ((([(run.runId, run)] : List (String × UsageRun)).filter
      fun e => !p e.1 e.2).map fun e => count key e.2).sum = 0 := by
    cases hpr : p run.runId run with
    | false => simp [hpr, hrun]
    | true => simp [hpr]
  unfold World.reported World.become
  rw [hgone, List.map_append, List.sum_append, List.map_map]
  simp only [hp, hmid, htotal, hlast, Function.comp_def]
  omega

/-! ## Steps -/

structure Inv (env : Environment) (w : World) : Prop where
  fits : w.ledger.Fits env
  keyed : ∀ runId row, w.ledger.runs.get? runId = some row → row.runId = runId
  sums : ∀ key, w.lost key = false →
    Telescopes (w.baseline key) (w.reported key) (watermark w.ledger key)
  /-- While a meter is continuous, its holder has counted all of it. -/
  whole : ∀ key scope row, w.ledger.scopes.get? key = some scope → scope.continuous = true →
    w.ledger.runs.get? scope.runId = some row → scopeKey row = key →
    w.fresh scope.runId = true ∧
      ∃ watermark, scope.watermark = some watermark ∧ tokens row = watermark.totalTokens
  reported : ∀ runId row, w.ledger.runs.get? runId = some row → row.coverage = .reported →
    w.fresh runId = true ∧ ∃ n, row.reportedTokens = some n ∧ w.accepted runId = some n

theorem Inv.empty : Inv env .empty := by
  refine ⟨⟨Nat.zero_le _, Nat.zero_le _⟩, ?_, fun _ _ => rfl, ?_, ?_⟩
  all_goals intros; contradiction

theorem kept_of_become {key : String} (h : (w.become t).lost key = false) :
    w.lost key = false ∧
      ∀ scope, w.ledger.scopes.get? key = some scope → ∃ scope', t.scopes.get? key =
        some scope' := by
  obtain ⟨hlost, hkept⟩ := Bool.or_eq_false_iff.mp h
  refine ⟨hlost, fun scope hscope => ?_⟩
  rw [(Dict.contains_iff _ _).mpr ⟨scope, hscope⟩, Bool.true_and, Bool.not_eq_false'] at hkept
  exact (Dict.contains_iff _ _).mp hkept

theorem Inv.sums_kept (h : Inv env w) {key : String} (hlost : w.lost key = false)
    (hwatermark : watermark t key = watermark w.ledger key)
    (hreported : (w.become t).reported key = w.reported key) :
    Telescopes ((w.become t).baseline key) ((w.become t).reported key) (watermark t key) := by
  have hold := h.sums key hlost
  unfold World.become at *
  simp only at *
  rw [hreported, hwatermark, hold.or_watermark]
  exact hold

theorem Inv.idle (h : Inv env w) : Inv env (w.become w.ledger) :=
  ⟨h.fits, h.keyed, fun _ hlost => h.sums_kept (kept_of_become hlost).1 rfl
    (reported_become_self _), h.whole, h.reported⟩

theorem Inv.finished (h : Inv env w) {runId : String} {row row' : UsageRun}
    (hrow : w.ledger.runs.get? runId = some row) (hid : row'.toIdentity = row.toIdentity)
    (hsame : row'.runId = row.runId) (htokens : row'.reportedTokens = row.reportedTokens)
    (hcoverage : row'.coverage = row.coverage) :
    Inv env (w.become { w.ledger with runs := w.ledger.runs.set runId row' }) := by
  have hkey : scopeKey row' = scopeKey row := by
    unfold scopeKey
    rw [hid, hsame]
  refine ⟨h.fits.set_run hrow, ?_, ?_, ?_, ?_⟩
  · intro other r hr
    rcases Dict.get?_set_cases hr with ⟨rfl, rfl⟩ | ⟨-, hr⟩
    · exact hsame.trans (h.keyed _ _ hrow)
    · exact h.keyed _ _ hr
  · intro key hlost
    refine h.sums_kept (kept_of_become hlost).1 rfl ?_
    rw [reported_become_set hrow rfl, count, count, hkey, tokens, tokens, htokens]
    omega
  · intro key scope r hscope hcontinuous hr hk
    rcases Dict.get?_set_cases hr with ⟨hrunId, rfl⟩ | ⟨-, hr⟩
    · rw [tokens, htokens]
      exact h.whole key scope row hscope hcontinuous (hrunId ▸ hrow) (hkey ▸ hk)
    · exact h.whole key scope r hscope hcontinuous hr hk
  · intro other r hr hreported
    rcases Dict.get?_set_cases hr with ⟨rfl, rfl⟩ | ⟨-, hr⟩
    · rw [htokens]
      exact h.reported _ row hrow (hcoverage ▸ hreported)
    · exact h.reported other r hr hreported

theorem admitRun_spec {run : UsageRun} {fresh : Bool} {mid : State}
    (h : admitRun s run fresh = .ok mid) :
    ∃ label scope, mid.runs = s.runs.set run.runId { run with accountLabel := label } ∧
      mid.scopes = s.scopes.set (scopeKey run) scope ∧ scope.runId = run.runId ∧
      (scope.continuous = true → fresh = true) ∧
      (scope.watermark = if fresh then some .zero else watermark s (scopeKey run)) ∧
      (fresh = true → s.scopes.get? (scopeKey run) = none) := by
  obtain ⟨accounts, -, h⟩ := except_bind_eq_ok.mp h
  obtain ⟨-, h⟩ := refuse_bind_eq_ok.mp h
  obtain ⟨hfresh, h⟩ := refuse_bind_eq_ok.mp h
  cases h
  refine ⟨_, _, rfl, rfl, rfl, fun hc => (Bool.and_eq_true_iff.mp hc).1, rfl, ?_⟩
  intro hf
  cases hscope : s.scopes.get? (scopeKey run) with
  | none => rfl
  | some scope => exact absurd ⟨hf, by rw [hscope]; rfl⟩ hfresh

theorem Inv.admitted (h : Inv env w) {run : UsageRun} {fresh : Bool} {mid : State}
    (hnew : run.IsNew) (hnone : w.ledger.runs.get? run.runId = none)
    (hentered : admitRun w.ledger run fresh = .ok mid) (hfits : (bound env mid).Fits env) :
    Inv env { w.become (bound env mid) with
      fresh := Function.update w.fresh run.runId fresh
      accepted := Function.update w.accepted run.runId none } := by
  obtain ⟨label, scope₁, hruns, hscopes, hholder, hcontinuous₁, hwatermark₁, hfresh₁⟩ :=
    admitRun_spec hentered
  obtain ⟨hunreported, hcoverage⟩ := hnew
  have hzero : tokens { run with accountLabel := label } = 0 := by
    rw [tokens, hunreported]
    rfl
  -- a row is the new one or an old one
  have hback : ∀ runId row, (bound env mid).runs.get? runId = some row →
      (runId = run.runId ∧ row = { run with accountLabel := label }) ∨
        (runId ≠ run.runId ∧ w.ledger.runs.get? runId = some row) :=
    fun _ _ hrow => Dict.get?_set_cases (hruns ▸ bound_runs hrow)
  have hbackScope : ∀ key scope, (bound env mid).scopes.get? key = some scope →
      (key = scopeKey run ∧ scope = scope₁) ∨
        (key ≠ scopeKey run ∧ w.ledger.scopes.get? key = some scope) :=
    fun _ _ hscope => Dict.get?_set_cases (hscopes ▸ bound_scopes hscope)
  refine ⟨hfits, ?_, ?_, ?_, ?_⟩
  · intro runId row hrow
    rcases hback _ _ hrow with ⟨rfl, rfl⟩ | ⟨-, hold⟩
    · rfl
    · exact h.keyed _ _ hold
  · intro key hlost
    obtain ⟨hlost₀, hkept⟩ := kept_of_become hlost
    have hlost₀ : w.lost key = false := hlost₀
    have hsum := @reported_become_bound env w { run with accountLabel := label } mid hnone hzero
      hruns key
    change Telescopes ((w.become _).baseline key) ((w.become _).reported key) _
    cases hscope : (bound env mid).scopes.get? key with
    | none =>
      refine h.sums_kept hlost₀ ?_ hsum
      cases hbefore : w.ledger.scopes.get? key with
      | none => simp only [watermark, hscope, hbefore]
      | some scope =>
        obtain ⟨scope', hscope'⟩ := hkept scope hbefore
        rw [hscope] at hscope'
        cases hscope'
    | some scope =>
      rcases hbackScope _ _ hscope with ⟨rfl, rfl⟩ | ⟨-, hold⟩
      · cases fresh with
        | false =>
          refine h.sums_kept hlost₀ ?_ hsum
          rw [watermark, hscope, Option.bind_some, hwatermark₁]
          rfl
        | true =>
          have hold := h.sums _ hlost₀
          rw [watermark, hfresh₁ rfl] at hold
          have hafter : watermark (bound env mid) (scopeKey run) = some .zero := by
            rw [watermark, hscope, Option.bind_some, hwatermark₁]
            rfl
          unfold World.become at *
          simp only at *
          rw [hsum, hafter]
          cases hbaseline : w.baseline (scopeKey run) with
          | none =>
            rw [hbaseline] at hold
            change w.reported (scopeKey run) = 0 at hold
            rw [hold]
            rfl
          | some _ =>
            rw [hbaseline] at hold
            cases hold
      · refine h.sums_kept hlost₀ ?_ hsum
        simp only [watermark, hscope, hold]
  · intro key scope row hscope hcontinuous hrow hkey
    rcases hbackScope _ _ hscope with ⟨rfl, rfl⟩ | ⟨hne, hold⟩
    · rcases hback _ _ hrow with ⟨-, rfl⟩ | ⟨hother, -⟩
      · have hfresh := hcontinuous₁ hcontinuous
        refine ⟨?_, .zero, ?_, hzero⟩
        · rw [hholder]
          exact (Function.update_self _ _ _).trans hfresh
        · rw [hwatermark₁, hfresh]
          rfl
      · exact absurd hholder hother
    · rcases hback _ _ hrow with ⟨-, rfl⟩ | ⟨hother, hrow₀⟩
      · exact absurd hkey.symm hne
      simp only
      rw [Function.update_of_ne hother]
      exact h.whole key scope row hold hcontinuous hrow₀ hkey
  · intro runId row hrow hreported
    rcases hback _ _ hrow with ⟨-, rfl⟩ | ⟨hother, hrow₀⟩
    · simp only at hreported
      rw [hcoverage] at hreported
      cases hreported
    · simp only
      rw [Function.update_of_ne hother, Function.update_of_ne hother]
      exact h.reported runId row hrow₀ hreported

theorem Advances.of_continuous {row row' : UsageRun} {meter meter' : Scope}
    {total : Option TokenBreakdown} {accepted : Bool}
    (ha : Advances row meter total row' meter' accepted) (hc : meter'.continuous = true) :
    accepted = true ∧ meter.continuous = true := by
  cases ha with
  | doubted _ _ hdoubt =>
    rw [hdoubt] at hc
    cases hc
  | accepted _ _ _ hsame => exact ⟨rfl, hsame ▸ hc⟩

theorem Advances.of_reported {row row' : UsageRun} {meter meter' : Scope}
    {total : Option TokenBreakdown} {accepted : Bool}
    (ha : Advances row meter total row' meter' accepted) (hr : row'.coverage = .reported) :
    accepted = true ∧ meter.continuous = true := by
  cases ha with
  | doubted _ _ _ hdoubt => exact absurd hr hdoubt
  | accepted _ _ _ _ _ _ hcoverage => exact ⟨rfl, hcoverage hr⟩

theorem Inv.recorded (h : Inv env w) {runId : String} {row row' : UsageRun} {meter meter' : Scope}
    {total : Option TokenBreakdown} {accepted : Bool}
    (hrow : w.ledger.runs.get? runId = some row)
    (hmeter : w.ledger.scopes.get? (scopeKey row) = some meter) (hheld : meter.runId = runId)
    (hid : row'.toIdentity = row.toIdentity) (hsame : row'.runId = row.runId)
    (hmeter' : meter'.runId = meter.runId) (ha : Advances row meter total row' meter' accepted)
    (hruns : t.runs = w.ledger.runs.set runId row')
    (hscopes : t.scopes = w.ledger.scopes.set (scopeKey row) meter') :
    Inv env { w.become t with
      accepted := if accepted then
          Function.update w.accepted runId (total.map TokenBreakdown.totalTokens)
        else w.accepted } := by
  have hkey : scopeKey row' = scopeKey row := by
    unfold scopeKey
    rw [hid, hsame]
  -- what an accepted snapshot says of a holder that counted all of its meter
  have hall : accepted = true → meter.continuous = true → w.fresh runId = true ∧
      ∃ snapshot, total = some snapshot ∧ meter'.watermark = some snapshot ∧
        row'.reportedTokens = some snapshot.totalTokens := by
    intro haccepted hcontinuous
    obtain ⟨hfresh, previous, hprevious, hcount⟩ :=
      h.whole _ meter row hmeter hcontinuous (hheld ▸ hrow) rfl
    rw [hheld] at hfresh
    cases ha with
    | doubted => cases haccepted
    | accepted snapshot hvalid hwatermark _ _ hgrown =>
      obtain ⟨hle, hreported⟩ := hgrown previous hprevious
      refine ⟨hfresh, snapshot, hvalid, hwatermark, ?_⟩
      rw [hreported, hcount, Nat.add_sub_cancel' hle]
  refine ⟨⟨?_, ?_⟩, ?_, ?_, ?_, ?_⟩
  · exact hruns ▸ (h.fits.set_run hrow).1
  · exact hscopes ▸ (Dict.size_set_of_some _ hmeter _).trans_le h.fits.2
  · intro other r hr
    rcases Dict.get?_set_cases (hruns ▸ hr) with ⟨rfl, rfl⟩ | ⟨-, hr⟩
    · exact hsame.trans (h.keyed _ _ hrow)
    · exact h.keyed _ _ hr
  · intro key hlost
    have hkept : w.lost key = false := (kept_of_become hlost).1
    have hsum := reported_become_set hrow hruns key
    change Telescopes ((w.become t).baseline key) ((w.become t).reported key) (watermark t key)
    by_cases hk : key = scopeKey row
    · have hafter : watermark t key = meter'.watermark := by
        rw [hk, watermark, hscopes, Dict.get?_set_self, Option.bind_some]
      have hold := h.sums key hkept
      rw [watermark, hk, hmeter, Option.bind_some, ← hk] at hold
      rw [count, count, if_pos hk.symm, if_pos (hkey.trans hk.symm)] at hsum
      have hadvanced := hold.advances ha hsum
      rw [← hafter] at hadvanced
      exact hadvanced
    · refine h.sums_kept hkept ?_ ?_
      · rw [watermark, watermark, hscopes, Dict.get?_set_of_ne _ _ hk]
      rw [hsum, count, count, if_neg fun he => hk he.symm, if_neg fun he =>
      hk (he.symm.trans hkey)]
      omega
  · intro key scope r hscope hcontinuous hr hk
    rcases Dict.get?_set_cases (hscopes ▸ hscope) with ⟨rfl, rfl⟩ | ⟨hne, hscope⟩
    · rcases Dict.get?_set_cases (hruns ▸ hr) with ⟨-, rfl⟩ | ⟨hother, -⟩
      · obtain ⟨haccepted, hmeters⟩ := ha.of_continuous hcontinuous
        obtain ⟨hfresh, snapshot, -, hwatermark, hreported⟩ := hall haccepted hmeters
        rw [hmeter', hheld]
        refine ⟨hfresh, snapshot, hwatermark, ?_⟩
        rw [tokens, hreported]
        rfl
      · exact absurd (hmeter'.trans hheld) hother
    · rcases Dict.get?_set_cases (hruns ▸ hr) with ⟨-, rfl⟩ | ⟨-, hr⟩
      · exact absurd (hk.symm.trans hkey) hne
      · exact h.whole key scope r hscope hcontinuous hr hk
  · intro other r hr hreported
    rcases Dict.get?_set_cases (hruns ▸ hr) with ⟨rfl, rfl⟩ | ⟨hother, hr⟩
    · obtain ⟨haccepted, hmeters⟩ := ha.of_reported hreported
      obtain ⟨hfresh, snapshot, hvalid, -, hcount⟩ := hall haccepted hmeters
      refine ⟨hfresh, _, hcount, ?_⟩
      simp only [haccepted, if_true, hvalid]
      exact Function.update_self _ _ _
    have hold := h.reported other r hr hreported
    simp only
    split
    · rw [Function.update_of_ne hother]
      exact hold
    · exact hold

theorem Inv.next (h : Inv env w) {c : Bool × Step} (hplain : c.2.IsPlain) :
    Inv env (w.next env c) := by
  obtain ⟨written, step⟩ := c
  obtain ⟨hok, herror⟩ := call_leads written step h.fits w.ledger rfl
  unfold World.next
  cases hcall : step.call env written w.ledger with
  | mk r t =>
    cases r with
    | error e =>
      rw [herror e t hcall]
      cases step with
      | _ => exact h.idle
    | ok answer =>
      have hmoves := hok answer t hcall
      cases hmoves with
      | idle known =>
        cases step with
        | start run fresh =>
          simp only [known run fresh rfl, if_true]
          exact h.idle
        | _ => exact h.idle
      | @admitted run fresh mid unknown entered fits =>
        have hunknown : w.ledger.runs.contains run.runId = false := by
          rw [Dict.contains, unknown]
          rfl
        simp only [hunknown]
        exact h.admitted hplain unknown entered fits
      | finished present identity same tokens coverage =>
        exact h.finished present identity same tokens coverage
      | recorded present held holder stored =>
        obtain ⟨hid, hsame, hmeter', ha⟩ := record_spec stored
        cases answer with
        | true => exact h.recorded present held holder hid hsame hmeter' ha rfl rfl
        | false => exact h.recorded present held holder hid hsame hmeter' ha rfl rfl

/-- For every sequence of calls, where a started run has no report yet (`Step.IsPlain`), with
failing writes anywhere: while the record of a meter is not evicted, the tokens of all the runs
ever attached to it are what its total grew by since the first; a run with reported coverage
started on a fresh native thread and reports the total last accepted for it; and a call that
raises changes nothing. -/
theorem usage_telescopes (env : Environment) (steps : List (Bool × Step))
    (hplain : ∀ c ∈ steps, c.2.IsPlain) :
    let w := World.empty.run env steps
    (∀ key, w.lost key = false →
      Telescopes (w.baseline key) (w.reported key) (watermark w.ledger key)) ∧
    (∀ runId row, w.ledger.runs.get? runId = some row → row.coverage = .reported →
      w.fresh runId = true ∧ ∃ n, row.reportedTokens = some n ∧ w.accepted runId = some n) ∧
    ∀ written (step : Step) e, (step.call env written w.ledger).1 = .error e →
      (step.call env written w.ledger).2 = w.ledger := by
  intro w
  have hinv : Inv env w := by
    refine List.foldlRecOn steps (World.next env) Inv.empty ?_
    intro v hv c hc
    exact hv.next (hplain c hc)
  refine ⟨hinv.sums, hinv.reported, ?_⟩
  intro written step e he
  obtain ⟨-, herror⟩ := call_leads written step hinv.fits w.ledger rfl
  exact herror e _ (Prod.ext he rfl)

def sampleEnvironment : Environment := ⟨fun value => some value.length, fun _ => 0, 2⟩

def sampleRun (runId : String) : UsageRun where
  threadId := "chat"
  projectId := none
  accountMarker := some "account"
  nativeThreadId := "native"
  nativeTurnId := "turn"
  startedAt := "now"
  budget := none
  runId := runId
  accountLabel := "Account not reported"
  finishedAt := none
  status := .running
  reportedTokens := none
  reportedThreadTokens := none
  coverage := .not_reported
  observedAt := none

/-- Two turns of one native thread, with a snapshot each; a write fails in between. -/
def twoTurns : List (Bool × Step) :=
  [(true, .start (sampleRun "a") true),
    (true, .observe "a" "native" "turn" (some ⟨100, 60, 0, 40, 0, 0⟩) "now"),
    (true, .finish "a" .completed "now"),
    (false, .start (sampleRun "b") false), (true, .start (sampleRun "b") false),
    (true, .observe "b" "native" "turn" (some ⟨150, 90, 0, 60, 0, 0⟩) "now")]

theorem usage_telescopes_twoTurns :
    let w := World.empty.run sampleEnvironment twoTurns
    w.reported "account:native" = 150 ∧ Telescopes (w.baseline "account:native")
      (w.reported "account:native") (watermark w.ledger "account:native") := by
  have hplain : ∀ c ∈ twoTurns, c.2.IsPlain := by
    simp [twoTurns, Step.IsPlain, UsageRun.IsNew, sampleRun]
  exact ⟨by decide +kernel,
    (usage_telescopes sampleEnvironment twoTurns hplain).1 _ (by decide +kernel)⟩

end CodexBridge.Usage
