import RobotEmu.Arithmetic

/-! How far the results of double arithmetic are from exact ones. Away from the ends of the range one operation
changes the exact result by a factor within the unit roundoff of one; the factors of a chain of operations
multiply. -/

namespace Binary64

open Float.Model Float.Model.UnpackedFloat

variable {x y z : Binary64} {r : ℝ} {n : ℕ}

/-- Half of the last place of one. -/
noncomputable def roundoff : ℝ := FloatGrid.unit (-53)

theorem roundoff_eq : roundoff = 1 / 2 ^ 53 := by
  rw [roundoff, FloatGrid.unit_eq, zpow_neg, one_div]
  rfl

/-- What is left of a real number after `n` roundings. -/
structure Near (n : ℕ) (x : Binary64) (r : ℝ) : Prop where
  isFinite : x.IsFinite
  factor : ∃ θ, (1 - roundoff) ^ n ≤ θ ∧ θ ≤ (1 + roundoff) ^ n ∧ x.toReal = r * θ

theorem Near.refl (hx : x.IsFinite) : Near 0 x x.toReal :=
  ⟨hx, 1, le_of_eq (pow_zero _), le_of_eq (pow_zero _).symm, (mul_one _).symm⟩

/-- What is nearest to a real number that does not round too far up is the rounded number. -/
theorem eq_round_of_nearest (hz : ¬z.IsNaN) (hvalue : z.value = nearest r)
    (hless : |FloatGrid.round 53 (-1074) r| < 2 ^ (1024 : Int)) :
    z.IsFinite ∧ z.toReal = FloatGrid.round 53 (-1074) r := by
  have hround : z.value = (FloatGrid.round 53 (-1074) r : ℝ) := by
    rw [hvalue, nearest, overflow_of_abs_lt hless]
  have hfinite : z.IsFinite := isFinite_of_value hz hround.ge hround.le
  rw [value_of_isFinite hfinite] at hround
  exact ⟨hfinite, EReal.coe_injective hround⟩

theorem near_of_nearest (hz : ¬z.IsNaN) (hvalue : z.value = nearest r) (hlo : 2 ^ (-1022 : Int) ≤ |r|)
    (hhi : |r| ≤ 2 ^ (1023 : Int)) : Near 1 z r := by
  have herror : |FloatGrid.round 53 (-1074) r - r| ≤ |r| / 2 ^ 53 := FloatGrid.abs_round_sub_le_of_normal hlo
  have hpos : 0 < |r| := lt_of_lt_of_le (by positivity) hlo
  have hr : r ≠ 0 := abs_pos.1 hpos
  have hrounded : |FloatGrid.round 53 (-1074) r| < 2 ^ (1024 : Int) := by
    have htriangle := abs_sub_abs_le_abs_sub (FloatGrid.round 53 (-1074) r) r
    have hsmall : |r| / 2 ^ 53 < |r| := div_lt_self hpos (by norm_num)
    calc |FloatGrid.round 53 (-1074) r| < |r| + |r| := by linarith
      _ ≤ 2 ^ (1023 : Int) + 2 ^ (1023 : Int) := add_le_add hhi hhi
      _ = 2 ^ (1024 : Int) := by
          rw [← mul_two, ← zpow_add_one₀ two_ne_zero]
          rfl
  obtain ⟨hfinite, hreal⟩ := eq_round_of_nearest hz hvalue hrounded
  have hfactor : |z.toReal / r - 1| ≤ roundoff := by
    rw [div_sub_one hr, abs_div, div_le_iff₀ hpos, roundoff_eq, hreal]
    calc |FloatGrid.round 53 (-1074) r - r| ≤ |r| / 2 ^ 53 := herror
      _ = 1 / 2 ^ 53 * |r| := by ring
  obtain ⟨hbelow, habove⟩ := abs_le.1 hfactor
  refine ⟨hfinite, z.toReal / r, ?_, ?_, (mul_div_cancel₀ _ hr).symm⟩
  · rw [pow_one]
    linarith
  · rw [pow_one]
    linarith

/-- What is nearest to a real number between two opposite powers of two is finite, and between them too. -/
theorem isFinite_of_nearest (hz : ¬z.IsNaN) (hvalue : z.value = nearest r) {k : Int} (hk : -1074 ≤ k) (hk' : k ≤ 1023)
    (h : |r| ≤ 2 ^ k) : z.IsFinite ∧ |z.toReal| ≤ 2 ^ k := by
  have hrounded : |FloatGrid.round 53 (-1074) r| ≤ 2 ^ k := FloatGrid.abs_round_le_zpow (by decide) hk h
  have hless : |FloatGrid.round 53 (-1074) r| < 2 ^ (1024 : Int) :=
    hrounded.trans_lt (zpow_lt_zpow_right₀ one_lt_two (by omega))
  obtain ⟨hfinite, hreal⟩ := eq_round_of_nearest hz hvalue hless
  rw [hreal]
  exact ⟨hfinite, hrounded⟩

theorem one_sub_roundoff_pos : 0 < 1 - roundoff := by
  rw [roundoff_eq]
  norm_num

theorem roundoff_pos : 0 < roundoff := by
  rw [roundoff_eq]
  norm_num

/-- One more rounding. -/
theorem Near.nearest (hx : Near n x r) {c : ℝ} (hz : Near 1 z (x.toReal * c)) : Near (n + 1) z (r * c) := by
  obtain ⟨-, θ, hlo, hhi, hx⟩ := hx
  obtain ⟨hfinite, η, hbelow, habove, heq⟩ := hz
  rw [pow_one] at hbelow habove
  have hθ : 0 ≤ θ := (pow_nonneg one_sub_roundoff_pos.le n).trans hlo
  have hη : 0 ≤ η := one_sub_roundoff_pos.le.trans hbelow
  refine ⟨hfinite, θ * η, ?_, ?_, ?_⟩
  · rw [pow_succ]
    exact mul_le_mul hlo hbelow one_sub_roundoff_pos.le hθ
  · rw [pow_succ]
    exact mul_le_mul hhi habove hη (pow_nonneg (add_pos one_pos roundoff_pos).le n)
  · rw [heq, hx]
    ring

theorem Near.mul (hx : Near n x r) (hy : y.IsFinite) (hlo : 2 ^ (-1022 : Int) ≤ |x.toReal * y.toReal|)
    (hhi : |x.toReal * y.toReal| ≤ 2 ^ (1023 : Int)) : Near (n + 1) (x * y) (r * y.toReal) :=
  hx.nearest (near_of_nearest (not_isNaN_mul_of_isFinite hx.isFinite hy) (value_mul hx.isFinite hy) hlo hhi)

theorem Near.div (hx : Near n x r) (hy : y.IsFinite) (hne : y.toReal ≠ 0)
    (hlo : 2 ^ (-1022 : Int) ≤ |x.toReal / y.toReal|) (hhi : |x.toReal / y.toReal| ≤ 2 ^ (1023 : Int)) :
    Near (n + 1) (x / y) (r / y.toReal) := by
  have hz : Near 1 (x / y) (x.toReal / y.toReal) :=
    near_of_nearest (not_isNaN_div_of_isFinite hx.isFinite hy hne) (value_div hx.isFinite hy hne) hlo hhi
  rw [div_eq_mul_inv] at hz ⊢
  exact hx.nearest hz

/-- A few roundings leave at least half, and at most double. -/
theorem Near.bounds (hx : Near n x r) (hn : n ≤ 4) : |r| / 2 ≤ |x.toReal| ∧ |x.toReal| ≤ 2 * |r| := by
  obtain ⟨-, θ, hlo, hhi, heq⟩ := hx
  have hroundoff := roundoff_pos
  have hbelow : 1 / 2 ≤ θ := by
    calc (1 : ℝ) / 2 ≤ (1 - roundoff) ^ 4 := by
          rw [roundoff_eq]
          norm_num
      _ ≤ (1 - roundoff) ^ n := pow_le_pow_of_le_one one_sub_roundoff_pos.le (by linarith) hn
      _ ≤ θ := hlo
  have habove : θ ≤ 2 := by
    calc θ ≤ (1 + roundoff) ^ n := hhi
      _ ≤ (1 + roundoff) ^ 4 := pow_le_pow_right₀ (by linarith) hn
      _ ≤ 2 := by
          rw [roundoff_eq]
          norm_num
  rw [heq, abs_mul, abs_of_nonneg (by linarith : 0 ≤ θ)]
  have hr := abs_nonneg r
  constructor <;> nlinarith only [hr, hbelow, habove]

/-- Four roundings err by no more than four places in the last but two. -/
theorem Near.abs_sub_le (hx : Near 4 x r) : |x.toReal - r| ≤ |r| / 2 ^ 50 := by
  obtain ⟨-, θ, hlo, hhi, heq⟩ := hx
  have hbelow : -(1 / 2 ^ 50) ≤ θ - 1 := by
    have hpow : (1 : ℝ) - 1 / 2 ^ 50 ≤ (1 - roundoff) ^ 4 := by
      rw [roundoff_eq]
      norm_num
    linarith
  have habove : θ - 1 ≤ 1 / 2 ^ 50 := by
    have hpow : (1 + roundoff) ^ 4 ≤ 1 + 1 / 2 ^ 50 := by
      rw [roundoff_eq]
      norm_num
    linarith
  calc |x.toReal - r| = |r| * |θ - 1| := by rw [heq, ← abs_mul, mul_sub_one]
    _ ≤ |r| * (1 / 2 ^ 50) := mul_le_mul_of_nonneg_left (abs_le.2 ⟨hbelow, habove⟩) (abs_nonneg r)
    _ = |r| / 2 ^ 50 := by rw [mul_one_div]

theorem not_isNaN_div (hx : ¬x.IsNaN) (hy : y.IsPositiveFinite) : ¬(x / y).IsNaN := by
  obtain ⟨m, e, hm, huy⟩ := isPositiveFinite_iff.1 hy
  change ¬(pack (UnpackedFloat.div Format.binary64 x.unpack y.unpack)).IsNaN
  rw [isNaN_pack, huy]
  cases hux : x.unpack with
  | notANumber => exact absurd hux hx
  | infinity s => simp [UnpackedFloat.div]
  | zero s => simp [UnpackedFloat.div]
  | finite s m' e' hm' => exact round_ne_notANumber _ _ _ _ _

/-! ### The order of results -/

theorem mul_le_mul_of_le {c : Binary64} (hx : x.IsFinite) (hy : y.IsFinite) (hc : c.IsFinite) (hpos : 0 ≤ c.toReal)
    (h : x ≤ y) : x * c ≤ y * c := by
  rw [le_iff_value (not_isNaN_mul_of_isFinite hx hc) (not_isNaN_mul_of_isFinite hy hc), value_mul hx hc,
    value_mul hy hc]
  exact nearest_mono (mul_le_mul_of_nonneg_right ((le_iff_toReal hx hy).1 h) hpos)

theorem div_le_div_of_le {c : Binary64} (hx : x.IsFinite) (hy : y.IsFinite) (hc : c.IsFinite) (hpos : 0 < c.toReal)
    (h : x ≤ y) : x / c ≤ y / c := by
  rw [le_iff_value (not_isNaN_div_of_isFinite hx hc hpos.ne') (not_isNaN_div_of_isFinite hy hc hpos.ne'),
    value_div hx hc hpos.ne', value_div hy hc hpos.ne']
  exact nearest_mono (div_le_div_of_nonneg_right ((le_iff_toReal hx hy).1 h) hpos.le)

end Binary64
