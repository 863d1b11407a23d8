import RobotEmu.Binary64Rounding

/-! What follows for the order of doubles from their arithmetic being exact arithmetic rounded: where the exact
results are ordered, so are the doubles, and none of them is a NaN unless an infinity is involved. -/

namespace Binary64

open Float.Model Float.Model.UnpackedFloat

variable {x y z : Binary64}

theorem isFinite_iff_value (hx : ¬x.IsNaN) : x.IsFinite ↔ ⊥ < x.value ∧ x.value < ⊤ := by
  constructor
  · intro h
    rw [value_of_isFinite h]
    exact ⟨EReal.bot_lt_coe _, EReal.coe_lt_top _⟩
  · rintro ⟨hbot, htop⟩
    by_contra hinfinite
    obtain ⟨s, hs⟩ := exists_infinity hx hinfinite
    rw [value, hs] at hbot htop
    cases s with
    | positive => exact lt_irrefl _ htop
    | negative => exact lt_irrefl _ hbot

/-- A number between two finite ones is finite. -/
theorem isFinite_of_value (hx : ¬x.IsNaN) {r r' : ℝ} (hlo : (r : EReal) ≤ x.value) (hhi : x.value ≤ r') : x.IsFinite :=
  (isFinite_iff_value hx).2 ⟨(EReal.bot_lt_coe r).trans_le hlo, hhi.trans_lt (EReal.coe_lt_top r')⟩

theorem le_iff_toReal (hx : x.IsFinite) (hy : y.IsFinite) : x ≤ y ↔ x.toReal ≤ y.toReal := by
  rw [le_iff_value hx.not_isNaN hy.not_isNaN, value_of_isFinite hx, value_of_isFinite hy, EReal.coe_le_coe_iff]

theorem lt_iff_toReal (hx : x.IsFinite) (hy : y.IsFinite) : x < y ↔ x.toReal < y.toReal := by
  rw [lt_iff_value hx.not_isNaN hy.not_isNaN, value_of_isFinite hx, value_of_isFinite hy, EReal.coe_lt_coe_iff]

protected theorem le_trans (hxy : x ≤ y) (hyz : y ≤ z) : x ≤ z := by
  have hx := (not_isNaN_of_le hxy).1
  obtain ⟨hy, hz⟩ := not_isNaN_of_le hyz
  rw [le_iff_value hx hy] at hxy
  rw [le_iff_value hy hz] at hyz
  exact (le_iff_value hx hz).2 (hxy.trans hyz)

protected theorem lt_of_le_of_lt (hxy : x ≤ y) (hyz : y < z) : x < z := by
  obtain ⟨hx, hy⟩ := not_isNaN_of_le hxy
  have hz := (not_isNaN_of_le (le_of_lt hyz)).2
  rw [le_iff_value hx hy] at hxy
  rw [lt_iff_value hy hz] at hyz
  exact (lt_iff_value hx hz).2 (hxy.trans_lt hyz)

protected theorem lt_of_lt_of_le (hxy : x < y) (hyz : y ≤ z) : x < z := by
  have hx := (not_isNaN_of_le (le_of_lt hxy)).1
  obtain ⟨hy, hz⟩ := not_isNaN_of_le hyz
  rw [lt_iff_value hx hy] at hxy
  rw [le_iff_value hy hz] at hyz
  exact (lt_iff_value hx hz).2 (hxy.trans_le hyz)

theorem isFinite_neg (hx : x.IsFinite) : (-x).IsFinite := by
  rw [IsFinite, unpack_neg]
  rcases hx.cases with ⟨s, h⟩ | ⟨s, m, e, hm, h, -⟩ <;> rw [h] <;> rfl

theorem toReal_zero : (ofInt 0).toReal = 0 := rfl

theorem value_zero : (ofInt 0).value = 0 := by rw [value_ofInt, Int.cast_zero, nearest_zero, EReal.coe_zero]

theorem toReal_one : (ofInt 1).toReal = 1 := by
  have hunpack : (ofInt 1).unpack = .finite .positive (2 ^ 52) (-52) (by decide) := rfl
  rw [toReal, hunpack, realOf_finite, signed]
  norm_num

theorem not_isNaN_ofInt (n : Int) : ¬(ofInt n).IsNaN := isNaN_pack.not.2 (normalize_ne_notANumber _ _ _ _)

theorem not_isNaN_mul_of_isFinite (hx : x.IsFinite) (hy : y.IsFinite) : ¬(x * y).IsNaN := by
  change ¬(pack (UnpackedFloat.mul Format.binary64 x.unpack y.unpack)).IsNaN
  rw [isNaN_pack]
  rcases hx.cases with ⟨s, hux⟩ | ⟨s, m, e, hm, hux, -⟩ <;> rcases hy.cases with ⟨t, huy⟩ | ⟨t, m', e', hm', huy, -⟩
  · rw [hux, huy]
    exact UnpackedFloat.noConfusion
  · rw [hux, huy]
    exact UnpackedFloat.noConfusion
  · rw [hux, huy]
    exact UnpackedFloat.noConfusion
  · rw [hux, huy]
    exact round_ne_notANumber _ _ _ _ _

theorem not_isNaN_div_of_isFinite (hx : x.IsFinite) (hy : y.IsFinite) (hne : y.toReal ≠ 0) : ¬(x / y).IsNaN := by
  change ¬(pack (UnpackedFloat.div Format.binary64 x.unpack y.unpack)).IsNaN
  rw [isNaN_pack]
  rw [toReal] at hne
  rcases hy.cases with ⟨t, huy⟩ | ⟨t, m', e', hm', huy, -⟩
  · rw [huy] at hne
    exact absurd realOf_zero hne
  · rcases hx.cases with ⟨s, hux⟩ | ⟨s, m, e, hm, hux, -⟩
    · rw [hux, huy]
      exact UnpackedFloat.noConfusion
    · rw [hux, huy]
      exact round_ne_notANumber _ _ _ _ _

theorem isFinite_of_isFinite_pack {u : UnpackedFloat} (h : (pack u).IsFinite) : u.isFinite = true := by
  cases u with
  | notANumber => exact h
  | infinity s =>
      rw [IsFinite, unpack_pack_infinity] at h
      exact h
  | zero s => rfl
  | finite s m e hm => rfl

theorem isFinite_of_isFinite_sub {u v : UnpackedFloat} (h : (UnpackedFloat.sub Format.binary64 u v).isFinite = true) :
    u.isFinite = true ∧ v.isFinite = true := by
  cases u with
  | notANumber => exact absurd h Bool.false_ne_true
  | infinity s =>
      cases v with
      | infinity t =>
          rw [UnpackedFloat.sub] at h
          split_ifs at h <;> exact absurd h Bool.false_ne_true
      | notANumber | zero t | finite t m e hm => exact absurd h Bool.false_ne_true
  | zero s | finite s m e hm =>
      cases v with
      | notANumber | infinity t => exact absurd h Bool.false_ne_true
      | zero t | finite t m' e' hm' => exact ⟨rfl, rfl⟩

/-- A difference is finite only if both of its parts are. -/
theorem isFinite_of_sub (h : (x - y).IsFinite) : x.IsFinite ∧ y.IsFinite :=
  isFinite_of_isFinite_sub (isFinite_of_isFinite_pack h)

/-- The double nearest to a number between zero and a double is between them too. -/
theorem mem_uIcc_of_nearest {d : Binary64} {r : ℝ} (hd : d.IsFinite) (hx : ¬x.IsNaN) (hvalue : x.value = nearest r)
    (hr : r ∈ Set.uIcc 0 d.toReal) : x.IsFinite ∧ x.toReal ∈ Set.uIcc 0 d.toReal := by
  have hmem : ∀ lo hi : ℝ, nearest lo = lo → nearest hi = hi → r ∈ Set.Icc lo hi →
      x.IsFinite ∧ x.toReal ∈ Set.Icc lo hi := by
    intro lo hi hlo hhi hr
    have hle : (lo : EReal) ≤ x.value := by
      rw [hvalue, ← hlo]
      exact nearest_mono hr.1
    have hge : x.value ≤ hi := by
      rw [hvalue, ← hhi]
      exact nearest_mono hr.2
    have hfinite := isFinite_of_value hx hle hge
    rw [value_of_isFinite hfinite] at hle hge
    exact ⟨hfinite, EReal.coe_le_coe_iff.1 hle, EReal.coe_le_coe_iff.1 hge⟩
  have hself : nearest d.toReal = d.toReal := (nearest_toReal hd).trans (value_of_isFinite hd)
  rcases le_total 0 d.toReal with hsign | hsign
  · rw [Set.uIcc_of_le hsign] at hr ⊢
    exact hmem 0 d.toReal nearest_zero hself hr
  · rw [Set.uIcc_of_ge hsign] at hr ⊢
    exact hmem d.toReal 0 hself nearest_zero hr

/-- What is multiplied by a number between zero and one ends between zero and itself. -/
theorem mul_mem_uIcc {d a : Binary64} (hd : d.IsFinite) (ha0 : ofInt 0 ≤ a) (ha1 : a ≤ ofInt 1) :
    (d * a).IsFinite ∧ (d * a).toReal ∈ Set.uIcc 0 d.toReal := by
  have ha : a.IsFinite := isFinite_of_le_of_le (by decide) (by decide) ha0 ha1
  rw [le_iff_toReal (by decide) ha, toReal_zero] at ha0
  rw [le_iff_toReal ha (by decide), toReal_one] at ha1
  apply mem_uIcc_of_nearest hd (not_isNaN_mul_of_isFinite hd ha) (value_mul hd ha)
  rcases le_total 0 d.toReal with hsign | hsign
  · rw [Set.uIcc_of_le hsign]
    exact ⟨mul_nonneg hsign ha0, mul_le_of_le_one_right hsign ha1⟩
  · rw [Set.uIcc_of_ge hsign]
    exact ⟨by nlinarith, mul_nonpos_of_nonpos_of_nonneg hsign ha0⟩

/-- What is divided by one or more ends between zero and itself. -/
theorem div_mem_uIcc {d a : Binary64} (hd : d.IsFinite) (ha : a.IsFinite) (ha1 : ofInt 1 ≤ a) :
    (d / a).IsFinite ∧ (d / a).toReal ∈ Set.uIcc 0 d.toReal := by
  rw [le_iff_toReal (by decide) ha, toReal_one] at ha1
  have hpos : 0 < a.toReal := one_pos.trans_le ha1
  apply mem_uIcc_of_nearest hd (not_isNaN_div_of_isFinite hd ha hpos.ne') (value_div hd ha hpos.ne')
  rcases le_total 0 d.toReal with hsign | hsign
  · rw [Set.uIcc_of_le hsign]
    exact ⟨div_nonneg hsign hpos.le, div_le_self hsign ha1⟩
  · rw [Set.uIcc_of_ge hsign, Set.mem_Icc, le_div_iff₀ hpos]
    exact ⟨by nlinarith, div_nonpos_of_nonpos_of_nonneg hsign hpos.le⟩

/-- A number below zero divided by one above zero is a number, and not above zero. -/
theorem div_le_zero (hx : x.IsFinite) (hy : y.IsFinite) (hx0 : x ≤ ofInt 0) (hy0 : ofInt 0 < y) : x / y ≤ ofInt 0 := by
  rw [le_iff_toReal hx (by decide), toReal_zero] at hx0
  rw [lt_iff_toReal (by decide) hy, toReal_zero] at hy0
  rw [le_iff_value (not_isNaN_div_of_isFinite hx hy hy0.ne') (not_isNaN_ofInt 0), value_div hx hy hy0.ne',
    value_ofInt, Int.cast_zero]
  exact nearest_mono (div_nonpos_of_nonpos_of_nonneg hx0 hy0.le)

/-- A whole number of 64 bits becomes a finite double. -/
theorem isFinite_ofInt {n : Int} (hlo : -2 ^ 63 ≤ n) (hhi : n ≤ 2 ^ 63) : (ofInt n).IsFinite := by
  have hle : (ofInt (-2 ^ 63)).value ≤ (ofInt n).value := by
    rw [value_ofInt, value_ofInt]
    exact nearest_mono (Int.cast_le.2 hlo)
  have hge : (ofInt n).value ≤ (ofInt (2 ^ 63)).value := by
    rw [value_ofInt, value_ofInt]
    exact nearest_mono (Int.cast_le.2 hhi)
  have hmin : (ofInt (-2 ^ 63)).IsFinite := by decide
  have hmax : (ofInt (2 ^ 63)).IsFinite := by decide
  rw [value_of_isFinite hmin] at hle
  rw [value_of_isFinite hmax] at hge
  exact isFinite_of_value (not_isNaN_ofInt n) hle hge

/-- Going from `x` a part of the way to `x + d` does not leave a range that both are in. -/
theorem add_mul_mem {d a lo hi : Binary64} (hx : x.IsFinite) (hd : d.IsFinite) (ha0 : ofInt 0 ≤ a) (ha1 : a ≤ ofInt 1)
    (hxlo : lo ≤ x) (hxhi : x ≤ hi) (hlo : lo ≤ x + d) (hhi : x + d ≤ hi) : lo ≤ x + d * a ∧ x + d * a ≤ hi := by
  obtain ⟨hp, hmem⟩ := mul_mem_uIcc hd ha0 ha1
  have hnumber : ¬(x + d * a).IsNaN := not_isNaN_add hx hp.not_isNaN
  obtain ⟨hnlo, hnx⟩ := not_isNaN_of_le hxlo
  obtain ⟨hnd, hnhi⟩ := not_isNaN_of_le hhi
  rw [le_iff_value hnlo hnx, ← nearest_toReal hx] at hxlo
  rw [le_iff_value hnx hnhi, ← nearest_toReal hx] at hxhi
  rw [le_iff_value hnlo hnd, value_add hx hd] at hlo
  rw [le_iff_value hnd hnhi, value_add hx hd] at hhi
  rw [le_iff_value hnlo hnumber, le_iff_value hnumber hnhi, value_add hx hp]
  rcases le_total 0 d.toReal with hsign | hsign
  · rw [Set.uIcc_of_le hsign] at hmem
    exact ⟨hxlo.trans (nearest_mono (by linarith [hmem.1])), (nearest_mono (by linarith [hmem.2])).trans hhi⟩
  · rw [Set.uIcc_of_ge hsign] at hmem
    exact ⟨hlo.trans (nearest_mono (by linarith [hmem.1])), (nearest_mono (by linarith [hmem.2])).trans hxhi⟩

end Binary64
