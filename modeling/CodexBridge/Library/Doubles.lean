import Mathlib.Data.Rat.Floor
import Mathlib.Tactic.Positivity

/-! # Rounding to doubles

The double nearest to a rational number that is not negative, ties going to the even significand.
Overflow and subnormal numbers are left out: what is rounded here lies between them.
-/

namespace Doubles

/-! ## To an integer -/

def halfEven (y : ℚ) : ℤ :=
  if y - ⌊y⌋ < 1 / 2 then ⌊y⌋
  else if 1 / 2 < y - ⌊y⌋ then ⌊y⌋ + 1
  else if ⌊y⌋ % 2 = 0 then ⌊y⌋
  else ⌊y⌋ + 1

theorem halfEven_error (y : ℚ) : |(halfEven y : ℚ) - y| ≤ 1 / 2 := by
  have hlow := Int.floor_le y
  have hhigh := Int.lt_floor_add_one y
  unfold halfEven
  split
  · rw [abs_le]
    constructor <;> linarith
  split
  · push_cast
    rw [abs_le]
    constructor <;> linarith
  split
  · rw [abs_le]
    constructor <;> linarith
  · push_cast
    rw [abs_le]
    constructor <;> linarith

/-- Rounding does not pass an integer. -/
theorem le_halfEven {y : ℚ} {n : ℤ} (h : (n : ℚ) ≤ y) : n ≤ halfEven y := by
  have hfloor : n ≤ ⌊y⌋ := Int.le_floor.mpr h
  unfold halfEven
  repeat' split
  all_goals omega

theorem halfEven_le {y : ℚ} {n : ℤ} (h : y ≤ n) : halfEven y ≤ n := by
  have herror := (abs_le.mp (halfEven_error y)).2
  have hclose : (halfEven y : ℚ) < n + 1 := by linarith
  have hint : halfEven y < n + 1 := by exact_mod_cast hclose
  omega

def unitExponent (q : ℚ) : ℤ :=
  let k := (Nat.log2 q.num.toNat : ℤ) - Nat.log2 q.den
  if q < 2 ^ k then k - 53 else k - 52

def round (q : ℚ) : ℚ := halfEven (q / 2 ^ unitExponent q) * 2 ^ unitExponent q

theorem two_zpow_pos (e : ℤ) : (0 : ℚ) < 2 ^ e := zpow_pos (by norm_num) e

/-- The powers of two around a number, up to a factor of two. -/
theorem log2_bounds {q : ℚ} (h : 0 < q) :
    (2 : ℚ) ^ ((Nat.log2 q.num.toNat : ℤ) - Nat.log2 q.den - 1) < q ∧
      q < (2 : ℚ) ^ ((Nat.log2 q.num.toNat : ℤ) - Nat.log2 q.den + 1) := by
  have hnum : 0 < q.num := Rat.num_pos.mpr h
  have hcast : ((q.num.toNat : ℕ) : ℚ) = q.num := by
    have hz : ((q.num.toNat : ℕ) : ℤ) = q.num := Int.toNat_of_nonneg hnum.le
    exact_mod_cast hz
  have hq : q = (q.num.toNat : ℚ) / q.den := by
    rw [hcast]
    exact (Rat.num_div_den q).symm
  have hn : q.num.toNat ≠ 0 := by omega
  have hd : q.den ≠ 0 := q.den_nz
  have hnlow : ((2 : ℚ)) ^ Nat.log2 q.num.toNat ≤ q.num.toNat := by
    exact_mod_cast Nat.log2_self_le hn
  have hnhigh : (q.num.toNat : ℚ) < 2 ^ (Nat.log2 q.num.toNat + 1) := by
    exact_mod_cast Nat.lt_log2_self (n := q.num.toNat)
  have hdlow : ((2 : ℚ)) ^ Nat.log2 q.den ≤ q.den := by
    exact_mod_cast Nat.log2_self_le hd
  have hdhigh : (q.den : ℚ) < 2 ^ (Nat.log2 q.den + 1) := by
    exact_mod_cast Nat.lt_log2_self (n := q.den)
  have hdpos : (0 : ℚ) < q.den := by exact_mod_cast q.den_pos
  have htwo : (2 : ℚ) ≠ 0 := by norm_num
  generalize Nat.log2 q.num.toNat = a at *
  generalize Nat.log2 q.den = b at *
  constructor
  · have hpow : (2 : ℚ) ^ ((a : ℤ) - b - 1) = 2 ^ a / 2 ^ (b + 1) := by
      rw [sub_sub, zpow_sub₀ htwo, zpow_natCast]
      congr 1
    have hpos : (0 : ℚ) < 2 ^ a := pow_pos (by norm_num) a
    have hpos' : (0 : ℚ) < 2 ^ (b + 1) := pow_pos (by norm_num) (b + 1)
    rw [hpow, hq, div_lt_div_iff₀ hpos' hdpos]
    calc (2 : ℚ) ^ a * q.den < 2 ^ a * 2 ^ (b + 1) := mul_lt_mul_of_pos_left hdhigh hpos
      _ ≤ q.num.toNat * 2 ^ (b + 1) := mul_le_mul_of_nonneg_right hnlow hpos'.le
  · have hpow : (2 : ℚ) ^ ((a : ℤ) - b + 1) = 2 ^ (a + 1) / 2 ^ b := by
      rw [sub_add_eq_add_sub, zpow_sub₀ htwo, zpow_natCast]
      congr 1
    have hpos : (0 : ℚ) < 2 ^ b := pow_pos (by norm_num) b
    have hpos' : (0 : ℚ) < 2 ^ (a + 1) := pow_pos (by norm_num) (a + 1)
    rw [hpow, hq, div_lt_div_iff₀ hdpos hpos]
    calc (q.num.toNat : ℚ) * 2 ^ b < 2 ^ (a + 1) * 2 ^ b := mul_lt_mul_of_pos_right hnhigh hpos
      _ ≤ 2 ^ (a + 1) * q.den := mul_le_mul_of_nonneg_left hdlow hpos'.le

/-- The significand has 53 digits at least. -/
theorem le_of_unitExponent {q : ℚ} (h : 0 < q) : (2 : ℚ) ^ (unitExponent q + 52) ≤ q := by
  obtain ⟨hlow, _⟩ := log2_bounds h
  unfold unitExponent
  simp only
  split
  · have heq : (Nat.log2 q.num.toNat : ℤ) - Nat.log2 q.den - 53 + 52 =
        (Nat.log2 q.num.toNat : ℤ) - Nat.log2 q.den - 1 := by ring
    rw [heq]
    exact hlow.le
  · rename_i hnot
    rw [sub_add_cancel]
    exact le_of_not_gt hnot

/-- Below `2 ^ 53` the last digit is at most a unit. -/
theorem unitExponent_le {q : ℚ} (h : 0 < q) (hq : q < 2 ^ (53 : ℤ)) : unitExponent q ≤ 0 := by
  have hle := le_of_unitExponent h
  have hlt : (2 : ℚ) ^ (unitExponent q + 52) < 2 ^ (53 : ℤ) := lt_of_le_of_lt hle hq
  have hexp := (zpow_lt_zpow_iff_right₀ (by norm_num : (1 : ℚ) < 2)).mp hlt
  omega

/-- An integer is a whole number of last digits. -/
theorem int_div_unit {e : ℤ} (he : e ≤ 0) (n : ℤ) :
    ∃ m : ℤ, (n : ℚ) / 2 ^ e = m ∧ (m : ℚ) * 2 ^ e = n := by
  obtain ⟨k, hk⟩ := Int.eq_ofNat_of_zero_le (by omega : 0 ≤ -e)
  have hpow : (2 : ℚ) ^ e * 2 ^ k = 1 := by
    have hinv : (2 : ℚ) ^ e = (2 ^ k)⁻¹ := by
      have heq : e = -(k : ℤ) := by omega
      rw [heq, zpow_neg, zpow_natCast]
    rw [hinv]
    exact inv_mul_cancel₀ (pow_ne_zero k (by norm_num))
  have hne : (2 : ℚ) ^ e ≠ 0 := (two_zpow_pos e).ne'
  refine ⟨n * 2 ^ k, ?_, ?_⟩
  · rw [div_eq_iff hne]
    push_cast
    rw [mul_assoc, mul_comm ((2 : ℚ) ^ k), hpow, mul_one]
  · push_cast
    rw [mul_assoc, mul_comm ((2 : ℚ) ^ k), hpow, mul_one]

/-- Rounding does not pass a whole number. -/
theorem le_round {q : ℚ} (h : 0 < q) (hq : q < 2 ^ (53 : ℤ)) {n : ℤ} (hn : (n : ℚ) ≤ q) :
    (n : ℚ) ≤ round q := by
  have hpos := two_zpow_pos (unitExponent q)
  obtain ⟨m, hm, hback⟩ := int_div_unit (unitExponent_le h hq) n
  have hle : (m : ℚ) ≤ q / 2 ^ unitExponent q := by
    rw [← hm]
    exact div_le_div_of_nonneg_right hn hpos.le
  have hint : (m : ℚ) ≤ halfEven (q / 2 ^ unitExponent q) := by
    exact_mod_cast le_halfEven hle
  calc (n : ℚ) = m * 2 ^ unitExponent q := hback.symm
    _ ≤ round q := mul_le_mul_of_nonneg_right hint hpos.le

theorem round_le {q : ℚ} (h : 0 < q) (hq : q < 2 ^ (53 : ℤ)) {n : ℤ} (hn : q ≤ n) :
    round q ≤ n := by
  have hpos := two_zpow_pos (unitExponent q)
  obtain ⟨m, hm, hback⟩ := int_div_unit (unitExponent_le h hq) n
  have hle : q / 2 ^ unitExponent q ≤ m := by
    rw [← hm]
    exact div_le_div_of_nonneg_right hn hpos.le
  have hint : (halfEven (q / 2 ^ unitExponent q) : ℚ) ≤ m := by
    exact_mod_cast halfEven_le hle
  calc round q ≤ m * 2 ^ unitExponent q := mul_le_mul_of_nonneg_right hint hpos.le
    _ = n := hback

theorem round_zero : round 0 = 0 := by
  unfold round
  rw [zero_div]
  have hzero : halfEven 0 = 0 := by
    have hle := halfEven_le (y := 0) (n := 0) (by norm_num)
    have hge := le_halfEven (y := 0) (n := 0) (by norm_num)
    omega
  rw [hzero]
  simp

/-- The relative error is at most `2 ^ -53`. -/
theorem round_error {q : ℚ} (h : 0 < q) : |round q - q| ≤ q / 2 ^ 53 := by
  have hpos := two_zpow_pos (unitExponent q)
  have herror := halfEven_error (q / 2 ^ unitExponent q)
  have hle := le_of_unitExponent h
  have hscale : round q - q =
      (halfEven (q / 2 ^ unitExponent q) - q / 2 ^ unitExponent q) * 2 ^ unitExponent q := by
    unfold round
    rw [sub_mul, div_mul_cancel₀ q hpos.ne']
  have hsplit : (2 : ℚ) ^ (unitExponent q + 52) = 2 ^ unitExponent q * 2 ^ 52 := by
    rw [zpow_add₀ (by norm_num : (2 : ℚ) ≠ 0)]
    norm_num
  rw [hsplit] at hle
  rw [hscale, abs_mul, abs_of_pos hpos]
  calc |(halfEven (q / 2 ^ unitExponent q) : ℚ) - q / 2 ^ unitExponent q| * 2 ^ unitExponent q
      ≤ 1 / 2 * 2 ^ unitExponent q := mul_le_mul_of_nonneg_right herror hpos.le
    _ ≤ q / 2 ^ 53 := by
        rw [le_div_iff₀ (by norm_num)]
        linarith

theorem round_pos {q : ℚ} (h : 0 < q) : 0 < round q := by
  have herror := (abs_le.mp (round_error h)).1
  have hsmall : q / 2 ^ 53 < q := div_lt_self h (by norm_num)
  linarith

end Doubles
