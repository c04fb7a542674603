import CodexBridge.Automations.Record
import CodexBridge.Library.Doubles
import Mathlib.Tactic.Ring

/-! # Next occurrences

The quotient of a span by an interval is rounded to a double twice. It does not pass a whole
number, but it may reach the one below.
-/

namespace CodexBridge.Automations

/-- `start + timedelta(seconds=…)`. -/
def addSeconds (env : Environment) (start seconds : Int) : Except AutomationError Int :=
  if start + seconds * 1000000 ≤ env.datetimeMax then .ok (start + seconds * 1000000)
  else .error .overflow

/-- `span.total_seconds() / seconds`. -/
def quotient (span : Int) (seconds : IntervalSeconds) : ℚ :=
  Doubles.round (Doubles.round (span / 1000000) / seconds.value)

def nextRun (env : Environment) (schedule : Schedule) (now : Int) :
    Except AutomationError (Option Int) :=
  match schedule with
  | .once at_ => .ok (if instantOf at_ > now then some at_ else none)
  | .interval seconds anchorAt =>
    let anchor := instantOf anchorAt
    if now ≤ anchor then .ok (some anchorAt)
    else
      let steps := ⌈quotient (now - anchor) seconds⌉
      (addSeconds env anchor (steps * seconds.value)).map fun t => some (iso t)
  | .rrule rule startAt timezone => .ok (env.rruleAfter rule startAt timezone now)

def nextRunAfter (env : Environment) (schedule : Schedule) (occurrence : Int) :
    Except AutomationError (Option Int) :=
  match schedule with
  | .once _ => .ok none
  | .interval seconds anchorAt =>
    let anchor := instantOf anchorAt
    if occurrence < anchor then .ok (some anchorAt)
    else
      let steps := ⌊quotient (occurrence - anchor) seconds⌋ + 1
      (addSeconds env anchor (steps * seconds.value)).map fun t => some (iso t)
  | .rrule rule startAt timezone => .ok (env.rruleAfter rule startAt timezone occurrence)

/-- Two dates are less apart than this. -/
def IsSpan (span : Int) : Prop := span < 400000000000000000

/-- Evaluated after an instant, a recurrence answers with a later one. Comparison by
wall clock breaks this in the repeated hour of a zone that sets its clocks back. -/
def AdvancesAt (env : Environment) (schedule : Schedule) (instant : Int) : Prop :=
  match schedule with
  | .interval _ anchorAt => IsSpan (instant - instantOf anchorAt)
  | .rrule rule startAt timezone =>
    ∀ next, env.rruleAfter rule startAt timezone instant = some next → instant < instantOf next
  | _ => True

def exactQuotient (span : Int) (seconds : IntervalSeconds) : ℚ := span / 1000000 / seconds.value

/-- A quotient that is no whole number is rounded to the one below it. -/
def RoundsDown (schedule : Schedule) (now : Int) : Prop :=
  match schedule with
  | .interval seconds anchorAt =>
    let exact := exactQuotient (now - instantOf anchorAt) seconds
    instantOf anchorAt < now ∧ exact ≠ ⌊exact⌋ ∧
      quotient (now - instantOf anchorAt) seconds = ⌊exact⌋
  | _ => False

def Schedule.isInterval : Schedule → Bool
  | .interval _ _ => true
  | _ => false

/-! ## Quotients -/

section

variable {seconds : IntervalSeconds} {span : Int}

theorem seconds_ge_one (seconds : IntervalSeconds) : (1 : ℚ) ≤ seconds.value := by
  have hbound := seconds.bounds.1
  have hnat : 1 ≤ seconds.value := by omega
  exact_mod_cast hnat

theorem seconds_pos (seconds : IntervalSeconds) : (0 : ℚ) < seconds.value :=
  lt_of_lt_of_le one_pos (seconds_ge_one seconds)

theorem le_exactQuotient {n : Int} :
    (n : ℚ) ≤ exactQuotient span seconds ↔ n * seconds.value * 1000000 ≤ span := by
  have hpos := seconds_pos seconds
  unfold exactQuotient
  rw [le_div_iff₀ hpos, le_div_iff₀ (by norm_num)]
  exact_mod_cast Iff.rfl

theorem exactQuotient_le {n : Int} :
    exactQuotient span seconds ≤ n ↔ span ≤ n * seconds.value * 1000000 := by
  have hpos := seconds_pos seconds
  unfold exactQuotient
  rw [div_le_iff₀ hpos, div_le_iff₀ (by norm_num)]
  exact_mod_cast Iff.rfl

/-- The rounded quotient does not fall below a whole number the exact one has reached. -/
theorem le_quotient (seconds : IntervalSeconds) (h : IsSpan span) {n : Int} (hspan : 0 < span)
    (hn : (n : ℚ) ≤ exactQuotient span seconds) : (n : ℚ) ≤ quotient span seconds := by
  have hcast : (0 : ℚ) < span := by exact_mod_cast hspan
  have hlong : (span : ℚ) < 400000000000000000 := by exact_mod_cast h
  have hpos : (0 : ℚ) < span / 1000000 := div_pos hcast (by norm_num)
  have hshort : (span : ℚ) / 1000000 < 2 ^ (53 : ℤ) := by
    rw [div_lt_iff₀ (by norm_num)]
    norm_num
    linarith
  have hround := Doubles.round_pos hpos
  have hroundLe : Doubles.round (span / 1000000) ≤ (400000000000 : ℤ) := by
    apply Doubles.round_le hpos hshort
    rw [div_le_iff₀ (by norm_num)]
    push_cast
    linarith
  have hs := seconds_pos seconds
  have hquotPos : 0 < Doubles.round (span / 1000000) / seconds.value := div_pos hround hs
  have hquotShort : Doubles.round (span / 1000000) / seconds.value < 2 ^ (53 : ℤ) := by
    have hle := div_le_self hround.le (seconds_ge_one seconds)
    have hnum : ((400000000000 : ℤ) : ℚ) < 2 ^ (53 : ℤ) := by norm_num
    linarith
  have hmul : ((n * seconds.value : ℤ) : ℚ) ≤ span / 1000000 := by
    rw [le_div_iff₀ (by norm_num)]
    exact_mod_cast le_exactQuotient.mp hn
  have hfirst := Doubles.le_round hpos hshort hmul
  apply Doubles.le_round hquotPos hquotShort
  rw [le_div_iff₀ hs]
  exact_mod_cast hfirst

/-- Beyond the whole numbers it has passed, the exact quotient is at most one step. -/
theorem span_lt_floor_quotient (seconds : IntervalSeconds) (h : IsSpan span) (hspan : 0 ≤ span) :
    span < (⌊quotient span seconds⌋ + 1) * seconds.value * 1000000 := by
  rcases hspan.eq_or_lt with rfl | hpos
  · have hzero : quotient 0 seconds = 0 := by
      unfold quotient
      simp [Doubles.round_zero]
    rw [hzero, Int.floor_zero]
    have hs := seconds.bounds.1
    omega
  have hfloor := le_quotient seconds h hpos (Int.floor_le _)
  have hle : ⌊exactQuotient span seconds⌋ ≤ ⌊quotient span seconds⌋ := Int.le_floor.mpr hfloor
  by_contra hnot
  have hreached := le_exactQuotient.mpr (not_lt.mp hnot)
  have hback := Int.le_floor.mpr hreached
  omega

/-- A quotient that is not rounded down reaches the next whole number. -/
theorem span_le_ceil_quotient (seconds : IntervalSeconds) (h : IsSpan span) (hspan : 0 < span)
    (hup : ¬ (exactQuotient span seconds ≠ ⌊exactQuotient span seconds⌋ ∧
      quotient span seconds = ⌊exactQuotient span seconds⌋)) :
    span ≤ ⌈quotient span seconds⌉ * seconds.value * 1000000 := by
  apply exactQuotient_le.mp
  have hfloor := le_quotient seconds h hspan (Int.floor_le _)
  by_cases hwhole : exactQuotient span seconds = ⌊exactQuotient span seconds⌋
  · calc exactQuotient span seconds = ⌊exactQuotient span seconds⌋ := hwhole
      _ ≤ quotient span seconds := hfloor
      _ ≤ ⌈quotient span seconds⌉ := Int.le_ceil _
  · have hne : quotient span seconds ≠ ⌊exactQuotient span seconds⌋ :=
      fun heq => hup ⟨hwhole, heq⟩
    have hlt : ⌊exactQuotient span seconds⌋ < ⌈quotient span seconds⌉ := by
      exact_mod_cast (lt_of_le_of_ne hfloor hne.symm).trans_le (Int.le_ceil _)
    calc exactQuotient span seconds ≤ ⌈exactQuotient span seconds⌉ := Int.le_ceil _
      _ ≤ (⌊exactQuotient span seconds⌋ + 1 : ℤ) := by
        exact_mod_cast Int.ceil_le_floor_add_one _
      _ ≤ ⌈quotient span seconds⌉ := by exact_mod_cast hlt

end

/-! ## Results lie after the reading -/

theorem addSeconds_eq_ok {env : Environment} {start seconds t : Int}
    (h : addSeconds env start seconds = .ok t) : t = start + seconds * 1000000 := by
  unfold addSeconds at h
  split at h
  · cases h
    rfl
  · cases h

/-- An interval occurrence is a whole number of seconds, so writing it loses nothing. -/
theorem addSeconds_map_iso {env : Environment} {anchorAt seconds : Int} {next : Option Int}
    (h : (addSeconds env (instantOf anchorAt) seconds).map (fun t => some (iso t)) = .ok next) :
    next = some (anchorAt + seconds) := by
  cases ha : addSeconds env (instantOf anchorAt) seconds with
  | error e =>
    rw [ha] at h
    cases h
  | ok t =>
    rw [ha] at h
    have ht := addSeconds_eq_ok ha
    cases h
    have hiso : iso t = anchorAt + seconds := by
      rw [ht]
      unfold iso instantOf
      omega
    show some (iso t) = _
    rw [hiso]

theorem nextRunAfter_gt {env : Environment} {schedule : Schedule} {occurrence next : Int}
    (ha : AdvancesAt env schedule occurrence)
    (h : nextRunAfter env schedule occurrence = .ok (some next)) :
    occurrence < instantOf next := by
  cases schedule with
  | once at_ => cases h
  | interval seconds anchorAt =>
    simp only [nextRunAfter] at h
    split at h
    · rename_i hlt
      cases h
      exact hlt
    rename_i hge
    have hn := addSeconds_map_iso h
    have hlt := span_lt_floor_quotient seconds ha (by omega)
    cases hn
    calc occurrence = (occurrence - instantOf anchorAt) + instantOf anchorAt := by omega
      _ < (⌊quotient (occurrence - instantOf anchorAt) seconds⌋ + 1) * seconds.value * 1000000 +
            instantOf anchorAt := by omega
      _ = instantOf (anchorAt + (⌊quotient (occurrence - instantOf anchorAt) seconds⌋ + 1) *
            seconds.value) := by
        unfold instantOf
        ring
  | rrule rule startAt timezone =>
    simp only [nextRunAfter, Except.ok.injEq] at h
    exact ha next h

theorem nextRun_interval_ge {env : Environment} {seconds : IntervalSeconds}
    {anchorAt now next : Int} (ha : AdvancesAt env (.interval seconds anchorAt) now)
    (hup : ¬ RoundsDown (.interval seconds anchorAt) now)
    (h : nextRun env (.interval seconds anchorAt) now = .ok (some next)) :
    now ≤ instantOf next := by
  simp only [nextRun] at h
  split at h
  · rename_i hle
    cases h
    exact hle
  rename_i hgt
  have hn := addSeconds_map_iso h
  have hle := span_le_ceil_quotient seconds ha (by omega)
    fun hdown => hup ⟨not_le.mp hgt, hdown⟩
  cases hn
  calc now = (now - instantOf anchorAt) + instantOf anchorAt := by omega
    _ ≤ ⌈quotient (now - instantOf anchorAt) seconds⌉ * seconds.value * 1000000 +
          instantOf anchorAt := by omega
    _ = instantOf (anchorAt + ⌈quotient (now - instantOf anchorAt) seconds⌉ *
          seconds.value) := by
      unfold instantOf
      ring

end CodexBridge.Automations
