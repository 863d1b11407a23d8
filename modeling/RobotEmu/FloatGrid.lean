import Mathlib
import RobotEmu.HalfEven

/-! The grid of a binary floating-point format: the numbers with a significand of `p` bits, or fewer where
the exponent is the least one, `emin`. A real number is rounded to a multiple of the quantum of its own
magnitude, and half way between two to the even multiple. There is no greatest number on the grid. -/

namespace FloatGrid

variable (p : ℕ) (emin : ℤ)

/-- The exponent of the last bit of the significand of a number of this magnitude. -/
noncomputable def quantum (x : ℝ) : ℤ := max (Int.log 2 |x| + 1 - p) emin

/-- The unit of an exponent: that power of the radix. -/
noncomputable def unit (e : ℤ) : ℝ := ((2 : ℕ) : ℝ) ^ e

/-- The number on the grid that is nearest to `x`. -/
noncomputable def round (x : ℝ) : ℝ := HalfEven.round (x / unit (quantum p emin x)) * unit (quantum p emin x)

variable {p emin} {x y : ℝ}

theorem unit_eq (e : ℤ) : unit e = 2 ^ e := by rw [unit, Nat.cast_ofNat]

theorem round_eq (x : ℝ) : round p emin x = HalfEven.round (x / 2 ^ quantum p emin x) * 2 ^ quantum p emin x := by
  rw [round, unit_eq]

theorem quantum_neg : quantum p emin (-x) = quantum p emin x := by rw [quantum, quantum, abs_neg]

theorem round_neg : round p emin (-x) = -round p emin x := by
  rw [round_eq, round_eq, quantum_neg, neg_div, HalfEven.round_neg, Int.cast_neg, neg_mul]

theorem round_zero : round p emin 0 = 0 := by
  have hround : HalfEven.round (0 : ℝ) = 0 := by
    rw [← Int.cast_zero, HalfEven.round_intCast]
  rw [round_eq, zero_div, hround, Int.cast_zero, zero_mul]

theorem quantum_mono (hx : 0 < x) (h : x ≤ y) : quantum p emin x ≤ quantum p emin y := by
  have hlog : Int.log 2 |x| ≤ Int.log 2 |y| := by
    rw [abs_of_pos hx, abs_of_pos (hx.trans_le h)]
    exact Int.log_mono_right hx h
  rw [quantum, quantum]
  omega

theorem lt_zpow_quantum (x : ℝ) : |x| < 2 ^ (quantum p emin x + p) := by
  have hlog := Int.lt_zpow_succ_log_self Nat.one_lt_two |x|
  rw [Nat.cast_ofNat] at hlog
  refine hlog.trans_le (zpow_le_zpow_right₀ one_le_two ?_)
  rw [quantum]
  omega

/-- Above the least quantum the significand has all of its bits. -/
theorem zpow_quantum_le (hx : x ≠ 0) (h : emin < quantum p emin x) : 2 ^ (quantum p emin x + p - 1) ≤ |x| := by
  have hlog := Int.zpow_log_le_self Nat.one_lt_two (abs_pos.2 hx)
  rw [Nat.cast_ofNat] at hlog
  refine le_trans (zpow_le_zpow_right₀ one_le_two ?_) hlog
  rw [quantum] at h ⊢
  omega

theorem div_zpow_le_iff {n : ℕ} {q : ℤ} : x / 2 ^ q ≤ ((2 ^ n : ℕ) : ℝ) ↔ x ≤ 2 ^ (q + n) := by
  rw [div_le_iff₀ (by positivity), zpow_add₀ two_ne_zero, zpow_natCast, Nat.cast_pow, Nat.cast_ofNat, mul_comm]

theorem le_div_zpow_iff {n : ℕ} {q : ℤ} : ((2 ^ n : ℕ) : ℝ) ≤ x / 2 ^ q ↔ 2 ^ (q + n) ≤ x := by
  rw [le_div_iff₀ (by positivity), zpow_add₀ two_ne_zero, zpow_natCast, Nat.cast_pow, Nat.cast_ofNat, mul_comm]

/-- The number of quanta that make the rounded number has at most one bit more than the significand. -/
theorem round_quanta_le (x : ℝ) : HalfEven.round (x / 2 ^ quantum p emin x) ≤ (2 ^ p : ℕ) := by
  apply HalfEven.round_le
  rw [Int.cast_natCast]
  exact div_zpow_le_iff.2 ((le_abs_self x).trans (lt_zpow_quantum x).le)

theorem round_le_zpow (x : ℝ) : round p emin x ≤ 2 ^ (quantum p emin x + p) := by
  have hquanta : (HalfEven.round (x / 2 ^ quantum p emin x) : ℝ) ≤ ((2 ^ p : ℕ) : ℝ) := by
    exact_mod_cast round_quanta_le x
  calc round p emin x = HalfEven.round (x / 2 ^ quantum p emin x) * 2 ^ quantum p emin x := round_eq x
    _ ≤ ((2 ^ p : ℕ) : ℝ) * 2 ^ quantum p emin x := mul_le_mul_of_nonneg_right hquanta (by positivity)
    _ = 2 ^ (quantum p emin x + p) := by
        rw [zpow_add₀ two_ne_zero, zpow_natCast, Nat.cast_pow, Nat.cast_ofNat, mul_comm]

theorem le_round_quanta (hp : 0 < p) (hx : 0 < x) (h : emin < quantum p emin x) :
    ((2 ^ (p - 1) : ℕ) : ℤ) ≤ HalfEven.round (x / 2 ^ quantum p emin x) := by
  apply HalfEven.le_round
  rw [Int.cast_natCast]
  have hle := zpow_quantum_le hx.ne' h
  rw [abs_of_pos hx] at hle
  refine le_div_zpow_iff.2 (le_trans (zpow_le_zpow_right₀ one_le_two ?_) hle)
  omega

theorem zpow_le_round (hp : 0 < p) (hx : 0 < x) (h : emin < quantum p emin x) :
    2 ^ (quantum p emin x + p - 1) ≤ round p emin x := by
  have hquanta : ((2 ^ (p - 1) : ℕ) : ℝ) ≤ (HalfEven.round (x / 2 ^ quantum p emin x) : ℝ) := by
    exact_mod_cast le_round_quanta hp hx h
  calc (2 : ℝ) ^ (quantum p emin x + p - 1) = ((2 ^ (p - 1) : ℕ) : ℝ) * 2 ^ quantum p emin x := by
        rw [Nat.cast_pow, Nat.cast_ofNat, ← zpow_natCast, ← zpow_add₀ two_ne_zero]
        congr 1
        omega
    _ ≤ HalfEven.round (x / 2 ^ quantum p emin x) * 2 ^ quantum p emin x :=
        mul_le_mul_of_nonneg_right hquanta (by positivity)
    _ = round p emin x := (round_eq x).symm

theorem round_nonneg (hx : 0 ≤ x) : 0 ≤ round p emin x := by
  have hquanta : 0 ≤ HalfEven.round (x / 2 ^ quantum p emin x) := by
    apply HalfEven.le_round
    rw [Int.cast_zero]
    positivity
  rw [round_eq]
  exact mul_nonneg (Int.cast_nonneg hquanta) (by positivity)

theorem round_mono_of_pos (hp : 0 < p) (hx : 0 < x) (h : x ≤ y) : round p emin x ≤ round p emin y := by
  have hquantum : quantum p emin x ≤ quantum p emin y := quantum_mono hx h
  rcases lt_or_eq_of_le hquantum with hlt | heq
  · calc round p emin x ≤ 2 ^ (quantum p emin x + p) := round_le_zpow x
      _ ≤ 2 ^ (quantum p emin y + p - 1) := zpow_le_zpow_right₀ one_le_two (by omega)
      _ ≤ round p emin y := zpow_le_round hp (hx.trans_le h) ((le_max_right _ _).trans_lt hlt)
  · have hround : HalfEven.round (x / 2 ^ quantum p emin x) ≤ HalfEven.round (y / 2 ^ quantum p emin x) :=
      HalfEven.round_mono (div_le_div_of_nonneg_right h (by positivity))
    rw [round_eq, round_eq, ← heq]
    exact mul_le_mul_of_nonneg_right (Int.cast_le.2 hround) (by positivity)

theorem round_nonpos (hx : x ≤ 0) : round p emin x ≤ 0 := by
  have hneg : 0 ≤ round p emin (-x) := round_nonneg (neg_nonneg.2 hx)
  rw [round_neg] at hneg
  exact neg_nonneg.1 hneg

theorem round_mono (hp : 0 < p) (h : x ≤ y) : round p emin x ≤ round p emin y := by
  rcases lt_or_ge 0 x with hx | hx
  · exact round_mono_of_pos hp hx h
  rcases le_or_gt 0 y with hy | hy
  · exact (round_nonpos hx).trans (round_nonneg hy)
  · have hneg : round p emin (-y) ≤ round p emin (-x) := round_mono_of_pos hp (neg_pos.2 hy) (neg_le_neg h)
    rwa [round_neg, round_neg, neg_le_neg_iff] at hneg

/-- The numbers on the grid are fixed. -/
theorem round_of_multiple {k e : ℤ} (hx : x = k * 2 ^ e) (he : quantum p emin x ≤ e) : round p emin x = x := by
  have hinteger : x / 2 ^ quantum p emin x = ((k * 2 ^ (e - quantum p emin x).toNat : ℤ) : ℝ) := by
    rw [div_eq_iff (by positivity), Int.cast_mul, Int.cast_pow, Int.cast_ofNat, mul_assoc, ← zpow_natCast,
      ← zpow_add₀ two_ne_zero, Int.toNat_of_nonneg (sub_nonneg.2 he), sub_add_cancel]
    exact hx
  rw [round_eq, hinteger, HalfEven.round_intCast, ← hinteger, div_mul_cancel₀]
  positivity

theorem round_zpow (hp : 0 < p) {k : ℤ} (hk : emin ≤ k) : round p emin (2 ^ k) = 2 ^ k := by
  apply round_of_multiple (k := 1) (e := k)
  · rw [Int.cast_one, one_mul]
  · have hlog : Int.log 2 |(2 : ℝ) ^ k| = k := by
      have hpow : Int.log 2 (((2 : ℕ) : ℝ) ^ k) = k := Int.log_zpow Nat.one_lt_two k
      rwa [Nat.cast_ofNat, ← abs_of_pos (show (0 : ℝ) < 2 ^ k by positivity)] at hpow
    rw [quantum, hlog]
    omega

/-- What is between two opposite powers of the radix stays there. -/
theorem abs_round_le_zpow (hp : 0 < p) {k : ℤ} (hk : emin ≤ k) (h : |x| ≤ 2 ^ k) : |round p emin x| ≤ 2 ^ k := by
  obtain ⟨hlo, hhi⟩ := abs_le.1 h
  have hlow : round p emin (-2 ^ k) ≤ round p emin x := round_mono hp hlo
  have hhigh : round p emin x ≤ round p emin (2 ^ k) := round_mono hp hhi
  rw [round_neg, round_zpow hp hk] at hlow
  rw [round_zpow hp hk] at hhigh
  exact abs_le.2 ⟨hlow, hhigh⟩

/-! ### How near -/

theorem abs_round_sub_le (x : ℝ) : |round p emin x - x| ≤ 2 ^ quantum p emin x / 2 := by
  have hunit : (0 : ℝ) < 2 ^ quantum p emin x := by positivity
  have hscaled : round p emin x - x =
      (HalfEven.round (x / 2 ^ quantum p emin x) - x / 2 ^ quantum p emin x) * 2 ^ quantum p emin x := by
    rw [round_eq, sub_mul, div_mul_cancel₀ _ hunit.ne']
  rw [hscaled, abs_mul, abs_of_pos hunit]
  calc |(HalfEven.round (x / 2 ^ quantum p emin x) : ℝ) - x / 2 ^ quantum p emin x| * 2 ^ quantum p emin x
      ≤ 1 / 2 * 2 ^ quantum p emin x := mul_le_mul_of_nonneg_right (HalfEven.abs_round_sub_le _) hunit.le
    _ = 2 ^ quantum p emin x / 2 := by ring

/-- Where the significand has all of its bits, rounding errs by no more than half of the last one. -/
theorem abs_round_sub_le_of_normal (h : 2 ^ (emin + p - 1) ≤ |x|) : |round p emin x - x| ≤ |x| / 2 ^ p := by
  have hpos : 0 < |x| := lt_of_lt_of_le (by positivity) h
  have hlog : emin + p - 1 ≤ Int.log 2 |x| := by
    rw [← Int.zpow_le_iff_le_log Nat.one_lt_two hpos, Nat.cast_ofNat]
    exact h
  have hquantum : quantum p emin x = Int.log 2 |x| + 1 - p := by
    rw [quantum]
    omega
  have hle := Int.zpow_log_le_self Nat.one_lt_two hpos
  rw [Nat.cast_ofNat] at hle
  refine (abs_round_sub_le x).trans ?_
  rw [hquantum]
  calc (2 : ℝ) ^ (Int.log 2 |x| + 1 - p) / 2 = 2 ^ Int.log 2 |x| / 2 ^ p := by
        rw [zpow_sub₀ two_ne_zero, zpow_add₀ two_ne_zero, zpow_one, zpow_natCast]
        ring
    _ ≤ |x| / 2 ^ p := div_le_div_of_nonneg_right hle (by positivity)

end FloatGrid
