import RobotEmu.Binary64Error
import RobotEmu.CliNumbering

/-! Angles that go to degrees and back, as those of a client that takes radians do: it converts them for the command
line's client, which converts them back for the wire. Four roundings move them by less than one part in a
quadrillion, and never past another angle. -/

namespace RobotEmu

open Binary64

theorem toReal_halfTurn : (Binary64.ofInt 180).IsFinite ∧ (Binary64.ofInt 180).toReal = 180 := by
  have hunpack : (Binary64.ofInt 180).unpack = .finite .positive 0x16800000000000 (-45) (by decide) := rfl
  refine ⟨by decide, ?_⟩
  rw [toReal, hunpack, realOf_finite, signed]
  norm_num

theorem toReal_pi : Numbers.pi.IsFinite ∧ 3 < Numbers.pi.toReal ∧ Numbers.pi.toReal < 4 := by
  have hunpack : Numbers.pi.unpack = .finite .positive 0x1921FB54442D18 (-51) (by decide) := rfl
  have hvalue : Numbers.pi.toReal = 0x1921FB54442D18 * 2 ^ (-51 : Int) := by
    rw [toReal, hunpack, realOf_finite, signed]
    rfl
  refine ⟨by decide, ?_, ?_⟩
  · rw [hvalue]
    norm_num
  · rw [hvalue]
    norm_num

theorem abs_mul_pi (t : ℝ) : 3 * |t| ≤ |t * Numbers.pi.toReal| ∧ |t * Numbers.pi.toReal| ≤ 4 * |t| := by
  obtain ⟨-, hlo, hhi⟩ := toReal_pi
  rw [abs_mul, abs_of_pos (show 0 < Numbers.pi.toReal by linarith), mul_comm |t|]
  exact ⟨mul_le_mul_of_nonneg_right hlo.le (abs_nonneg t), mul_le_mul_of_nonneg_right hhi.le (abs_nonneg t)⟩

theorem abs_div_pi (t : ℝ) : 3 * |t / Numbers.pi.toReal| ≤ |t| ∧ |t| ≤ 4 * |t / Numbers.pi.toReal| := by
  obtain ⟨-, hlo, -⟩ := toReal_pi
  have hsplit := abs_mul_pi (t / Numbers.pi.toReal)
  rwa [div_mul_cancel₀ _ (show Numbers.pi.toReal ≠ 0 by linarith)] at hsplit

theorem abs_mul_halfTurn (t : ℝ) : |t * (Binary64.ofInt 180).toReal| = 180 * |t| := by
  rw [toReal_halfTurn.2, abs_mul, abs_of_pos (show (0 : ℝ) < 180 by norm_num), mul_comm]

theorem abs_div_halfTurn (t : ℝ) : 180 * |t / (Binary64.ofInt 180).toReal| = |t| := by
  rw [← abs_mul_halfTurn, toReal_halfTurn.2, div_mul_cancel₀ _ (by norm_num)]

/-- Near angles of ordinary size stay within the range of doubles. -/
theorem range_of_near {w r : ℝ} (hlo : 2 ^ (-1000 : Int) ≤ |r|) (hhi : |r| ≤ 2 ^ (1000 : Int)) (hbelow : |r| ≤ 16 * |w|)
    (habove : |w| ≤ 1024 * |r|) : 2 ^ (-1022 : Int) ≤ |w| ∧ |w| ≤ 2 ^ (1023 : Int) := by
  constructor
  · have hsplit : (16 : ℝ) * 2 ^ (-1022 : Int) ≤ 2 ^ (-1000 : Int) := by
      rw [show (16 : ℝ) = 2 ^ (4 : Int) by norm_num, ← zpow_add₀ two_ne_zero]
      exact zpow_le_zpow_right₀ one_le_two (by decide)
    refine le_of_mul_le_mul_left (a := (16 : ℝ)) ?_ (by norm_num)
    exact hsplit.trans (hlo.trans hbelow)
  · calc |w| ≤ 1024 * |r| := habove
      _ ≤ 1024 * 2 ^ (1000 : Int) := mul_le_mul_of_nonneg_left hhi (by norm_num)
      _ = 2 ^ (1010 : Int) := by
          rw [show (1024 : ℝ) = 2 ^ (10 : Int) by norm_num, ← zpow_add₀ two_ne_zero]
          rfl
      _ ≤ 2 ^ (1023 : Int) := zpow_le_zpow_right₀ one_le_two (by decide)

/-- There and back is four roundings. -/
theorem near_radians_toDegrees {x : Binary64} (hx : x.IsFinite) (hlo : 2 ^ (-1000 : Int) ≤ |x.toReal|)
    (hhi : |x.toReal| ≤ 2 ^ (1000 : Int)) : Near 4 (Server.radians (toDegrees x)) x.toReal := by
  obtain ⟨hturn, hturnReal⟩ := toReal_halfTurn
  obtain ⟨hpi, hpiLo, -⟩ := toReal_pi
  have hpi0 : Numbers.pi.toReal ≠ 0 := by linarith
  have hrange : ∀ {w : ℝ}, |x.toReal| ≤ 16 * |w| → |w| ≤ 1024 * |x.toReal| →
      2 ^ (-1022 : Int) ≤ |w| ∧ |w| ≤ 2 ^ (1023 : Int) := fun hbelow habove => range_of_near hlo hhi hbelow habove
  have hpos := abs_nonneg x.toReal
  have hturned := abs_mul_halfTurn x.toReal
  have hone : Near 1 (x * Binary64.ofInt 180) (x.toReal * (Binary64.ofInt 180).toReal) := by
    obtain ⟨hlo', hhi'⟩ := hrange (w := x.toReal * (Binary64.ofInt 180).toReal) (by linarith) (by linarith)
    exact (Near.refl hx).mul hturn hlo' hhi'
  have htwo : Near 2 (toDegrees x) (x.toReal * (Binary64.ofInt 180).toReal / Numbers.pi.toReal) := by
    obtain ⟨hbelow, habove⟩ := hone.bounds (by decide)
    obtain ⟨hthree, hfour⟩ := abs_div_pi (x * Binary64.ofInt 180).toReal
    obtain ⟨hlo', hhi'⟩ := hrange (w := (x * Binary64.ofInt 180).toReal / Numbers.pi.toReal) (by linarith) (by linarith)
    exact hone.div hpi hpi0 hlo' hhi'
  have hthree : Near 3 (toDegrees x * Numbers.pi) (x.toReal * (Binary64.ofInt 180).toReal) := by
    obtain ⟨hbelow, habove⟩ := htwo.bounds (by decide)
    obtain ⟨hless, hmore⟩ := abs_div_pi (x.toReal * (Binary64.ofInt 180).toReal)
    obtain ⟨hless', hmore'⟩ := abs_mul_pi (toDegrees x).toReal
    obtain ⟨hlo', hhi'⟩ := hrange (w := (toDegrees x).toReal * Numbers.pi.toReal) (by linarith) (by linarith)
    have hnear := htwo.mul hpi hlo' hhi'
    rwa [div_mul_cancel₀ _ hpi0] at hnear
  obtain ⟨hbelow, habove⟩ := hthree.bounds (by decide)
  have hquotient := abs_div_halfTurn (toDegrees x * Numbers.pi).toReal
  have hturn0 : (Binary64.ofInt 180).toReal ≠ 0 := by
    rw [hturnReal]
    norm_num
  obtain ⟨hlo', hhi'⟩ := hrange (w := (toDegrees x * Numbers.pi).toReal / (Binary64.ofInt 180).toReal)
    (by linarith) (by linarith)
  have hnear := hthree.div hturn hturn0 hlo' hhi'
  rwa [mul_div_cancel_right₀ _ hturn0] at hnear

/-- An angle of ordinary size comes back within one part in a quadrillion. -/
theorem abs_radians_toDegrees_sub_le {x : Binary64} (hx : x.IsFinite) (hlo : 2 ^ (-1000 : Int) ≤ |x.toReal|)
    (hhi : |x.toReal| ≤ 2 ^ (1000 : Int)) :
    |(Server.radians (toDegrees x)).toReal - x.toReal| ≤ |x.toReal| / 2 ^ 50 :=
  (near_radians_toDegrees hx hlo hhi).abs_sub_le

/-- No step there or back takes an angle far from its size. -/
theorem isFinite_toDegrees {x : Binary64} (hx : x.IsFinite) {k : Int} (hk : -1000 ≤ k) (hk' : k ≤ 1000)
    (h : |x.toReal| ≤ 2 ^ k) : (x * Binary64.ofInt 180).IsFinite ∧ (toDegrees x).IsFinite ∧
      (toDegrees x * Numbers.pi).IsFinite ∧ |(Server.radians (toDegrees x)).toReal| ≤ 2 ^ (k + 10) := by
  obtain ⟨hturn, hturnReal⟩ := toReal_halfTurn
  obtain ⟨hpi, hpiLo, -⟩ := toReal_pi
  have hpi0 : Numbers.pi.toReal ≠ 0 := by linarith
  have hturn0 : (Binary64.ofInt 180).toReal ≠ 0 := by
    rw [hturnReal]
    norm_num
  obtain ⟨hone, hone'⟩ := isFinite_of_nearest (k := k + 8) (not_isNaN_mul_of_isFinite hx hturn) (value_mul hx hturn)
    (by omega) (by omega) (by
      rw [abs_mul_halfTurn, zpow_add₀ two_ne_zero, mul_comm]
      exact mul_le_mul h (by norm_num) (by norm_num) (by positivity))
  obtain ⟨htwo, htwo'⟩ := isFinite_of_nearest (k := k + 8) (not_isNaN_div_of_isFinite hone hpi hpi0)
    (value_div hone hpi hpi0) (by omega) (by omega) (by
      have hless := (abs_div_pi (x * Binary64.ofInt 180).toReal).1
      have hpos := abs_nonneg ((x * Binary64.ofInt 180).toReal / Numbers.pi.toReal)
      exact le_trans (by linarith) hone')
  obtain ⟨hthree, hthree'⟩ := isFinite_of_nearest (k := k + 10) (not_isNaN_mul_of_isFinite htwo hpi)
    (value_mul htwo hpi) (by omega) (by omega) (by
      calc |(toDegrees x).toReal * Numbers.pi.toReal| ≤ 4 * |(toDegrees x).toReal| := (abs_mul_pi _).2
        _ ≤ 4 * 2 ^ (k + 8) := mul_le_mul_of_nonneg_left htwo' (by norm_num)
        _ = 2 ^ (k + 10) := by
            rw [show k + 10 = 2 + (k + 8) by omega, zpow_add₀ two_ne_zero 2]
            norm_num)
  refine ⟨hone, htwo, hthree, ?_⟩
  refine (isFinite_of_nearest (not_isNaN_div_of_isFinite hthree hturn hturn0) (value_div hthree hturn hturn0)
    (by omega) (by omega) ?_).2
  have hquotient := abs_div_halfTurn (toDegrees x * Numbers.pi).toReal
  have hpos := abs_nonneg ((toDegrees x * Numbers.pi).toReal / (Binary64.ofInt 180).toReal)
  have hless : |(toDegrees x * Numbers.pi).toReal / (Binary64.ofInt 180).toReal| ≤
      |(toDegrees x * Numbers.pi).toReal| := by linarith
  exact hless.trans hthree'

/-- An angle of any size comes back within one part in a quadrillion, but for the last places near zero. -/
theorem abs_radians_toDegrees_sub_le_add {x : Binary64} (hx : x.IsFinite) (h : |x.toReal| ≤ 2 ^ (1000 : Int)) :
    |(Server.radians (toDegrees x)).toReal - x.toReal| ≤ |x.toReal| / 2 ^ 50 + 2 ^ (-900 : Int) := by
  rcases le_or_gt (2 ^ (-1000 : Int)) |x.toReal| with hlo | hsmall
  · exact (abs_radians_toDegrees_sub_le hx hlo h).trans (le_add_of_nonneg_right (by positivity))
  · obtain ⟨-, -, -, hback⟩ := isFinite_toDegrees hx (le_refl _) (by decide) hsmall.le
    calc |(Server.radians (toDegrees x)).toReal - x.toReal|
        ≤ |(Server.radians (toDegrees x)).toReal| + |x.toReal| := abs_sub _ _
      _ ≤ 2 ^ (-990 : Int) + 2 ^ (-990 : Int) :=
          add_le_add hback (hsmall.le.trans (zpow_le_zpow_right₀ one_le_two (by decide)))
      _ = 2 ^ (-989 : Int) := by
          rw [← mul_two, ← zpow_add_one₀ two_ne_zero]
          rfl
      _ ≤ 2 ^ (-900 : Int) := zpow_le_zpow_right₀ one_le_two (by decide)
      _ ≤ |x.toReal| / 2 ^ 50 + 2 ^ (-900 : Int) := le_add_of_nonneg_left (by positivity)

theorem toDegrees_mono {x y : Binary64} (hx : x.IsFinite) (hy : y.IsFinite) (hx' : (x * Binary64.ofInt 180).IsFinite)
    (hy' : (y * Binary64.ofInt 180).IsFinite) (h : x ≤ y) : toDegrees x ≤ toDegrees y := by
  obtain ⟨hturn, hturnReal⟩ := toReal_halfTurn
  obtain ⟨hpi, hpiLo, -⟩ := toReal_pi
  have hturnPos : 0 ≤ (Binary64.ofInt 180).toReal := by
    rw [hturnReal]
    norm_num
  exact div_le_div_of_le hx' hy' hpi (by linarith) (mul_le_mul_of_le hx hy hturn hturnPos h)

theorem radians_mono {x y : Binary64} (hx : x.IsFinite) (hy : y.IsFinite) (hx' : (x * Numbers.pi).IsFinite)
    (hy' : (y * Numbers.pi).IsFinite) (h : x ≤ y) : Server.radians x ≤ Server.radians y := by
  obtain ⟨hturn, hturnReal⟩ := toReal_halfTurn
  obtain ⟨hpi, hpiLo, -⟩ := toReal_pi
  have hturnPos : 0 < (Binary64.ofInt 180).toReal := by
    rw [hturnReal]
    norm_num
  exact div_le_div_of_le hx' hy' hturn hturnPos (mul_le_mul_of_le hx hy hpi (by linarith) h)

/-- There and back, angles keep their order. -/
theorem radians_toDegrees_mono {x y : Binary64} (hx : x.IsFinite) (hy : y.IsFinite)
    (hx' : |x.toReal| ≤ 2 ^ (1000 : Int)) (hy' : |y.toReal| ≤ 2 ^ (1000 : Int)) (h : x ≤ y) :
    Server.radians (toDegrees x) ≤ Server.radians (toDegrees y) := by
  obtain ⟨hxOne, hxTwo, hxThree, -⟩ := isFinite_toDegrees hx (by decide) (le_refl _) hx'
  obtain ⟨hyOne, hyTwo, hyThree, -⟩ := isFinite_toDegrees hy (by decide) (le_refl _) hy'
  exact radians_mono hxTwo hyTwo hxThree hyThree (toDegrees_mono hx hy hxOne hyOne h)

theorem not_isNaN_radians_toDegrees {x : Binary64} (h : ¬x.IsNaN) : ¬(Server.radians (toDegrees x)).IsNaN := by
  have hturn : (Binary64.ofInt 180).IsPositiveFinite := by decide
  have hpi : Numbers.pi.IsPositiveFinite := by decide
  have hdegrees : ¬(toDegrees x).IsNaN := not_isNaN_div (not_isNaN_mul hturn h).2 hpi
  exact not_isNaN_div (not_isNaN_mul hpi hdegrees).2 hturn

theorem abs_le_of_mem_defaultLimits {x : Binary64} (hmin : Server.defaultLimits.minPosition ≤ x)
    (hmax : x ≤ Server.defaultLimits.maxPosition) : x.IsFinite ∧ |x.toReal| ≤ 4 := by
  have hfour : (Binary64.ofInt 4).toReal = 4 := by
    have hunpack : (Binary64.ofInt 4).unpack = .finite .positive (2 ^ 52) (-50) (by decide) := rfl
    rw [toReal, hunpack, realOf_finite, signed]
    norm_num
  have hminusFour : (Binary64.ofInt (-4)).toReal = -4 := by
    have hunpack : (Binary64.ofInt (-4)).unpack = .finite .negative (2 ^ 52) (-50) (by decide) := rfl
    rw [toReal, hunpack, realOf_finite, signed]
    norm_num
  have hhi : x ≤ Binary64.ofInt 4 := Binary64.le_trans hmax (by decide +kernel)
  have hlo : Binary64.ofInt (-4) ≤ x := Binary64.le_trans (by decide +kernel) hmin
  have hnumber := (not_isNaN_of_le hmin).2
  have hfourFinite : (Binary64.ofInt 4).IsFinite := by decide
  have hminusFourFinite : (Binary64.ofInt (-4)).IsFinite := by decide
  rw [le_iff_value hnumber (not_isNaN_ofInt 4), value_of_isFinite hfourFinite] at hhi
  rw [le_iff_value (not_isNaN_ofInt (-4)) hnumber, value_of_isFinite hminusFourFinite] at hlo
  have hfinite : x.IsFinite := isFinite_of_value hnumber hlo hhi
  rw [value_of_isFinite hfinite, EReal.coe_le_coe_iff, hfour] at hhi
  rw [value_of_isFinite hfinite, EReal.coe_le_coe_iff, hminusFour] at hlo
  exact ⟨hfinite, abs_le.2 ⟨hlo, hhi⟩⟩

theorem isFinite_of_mem_defaultLimits {x : Binary64} (hmin : Server.defaultLimits.minPosition ≤ x)
    (hmax : x ≤ Server.defaultLimits.maxPosition) : x.IsFinite ∧ |x.toReal| ≤ 2 ^ (1000 : Int) := by
  obtain ⟨hfinite, hfour⟩ := abs_le_of_mem_defaultLimits hmin hmax
  have hsmall : (4 : ℝ) ≤ 2 ^ (1000 : Int) := by
    rw [show (4 : ℝ) = 2 ^ (2 : Int) by norm_num]
    exact zpow_le_zpow_right₀ one_le_two (by decide)
  exact ⟨hfinite, hfour.trans hsmall⟩

/-- The default limits come back as they were, so what is within them comes back within them. -/
theorem radians_toDegrees_mem {x : Binary64} (hmin : Server.defaultLimits.minPosition ≤ x)
    (hmax : x ≤ Server.defaultLimits.maxPosition) :
    Server.defaultLimits.minPosition ≤ Server.radians (toDegrees x) ∧
      Server.radians (toDegrees x) ≤ Server.defaultLimits.maxPosition := by
  have hfixedMin : Server.radians (toDegrees Server.defaultLimits.minPosition) = Server.defaultLimits.minPosition := by
    decide +kernel
  have hfixedMax : Server.radians (toDegrees Server.defaultLimits.maxPosition) = Server.defaultLimits.maxPosition := by
    decide +kernel
  have horder : Server.defaultLimits.minPosition ≤ Server.defaultLimits.maxPosition := Binary64.le_trans hmin hmax
  have hself : ∀ {y : Binary64}, ¬y.IsNaN → y ≤ y := fun h => le_self h
  obtain ⟨hx, hx'⟩ := isFinite_of_mem_defaultLimits hmin hmax
  obtain ⟨hlow, hlow'⟩ := isFinite_of_mem_defaultLimits (hself (not_isNaN_of_le horder).1) horder
  obtain ⟨hhigh, hhigh'⟩ := isFinite_of_mem_defaultLimits horder (hself (not_isNaN_of_le horder).2)
  have hbelow := radians_toDegrees_mono hlow hx hlow' hx' hmin
  have habove := radians_toDegrees_mono hx hhigh hx' hhigh' hmax
  rw [hfixedMin] at hbelow
  rw [hfixedMax] at habove
  exact ⟨hbelow, habove⟩

end RobotEmu
