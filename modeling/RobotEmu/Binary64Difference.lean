import RobotEmu.Binary64Order

/-! Differences of doubles. Only a NaN or an infinity taken from itself spoils one. Its sign is exact, since the
least number above zero is no more than the distance between two doubles; and a difference that is greater than a
finite double is so before it is rounded. -/

namespace Binary64

open Float.Model Float.Model.UnpackedFloat

variable {x y z : Binary64}

/-- Numbers, and not the same infinity. -/
def HaveDistance (x y : Binary64) : Prop := ¬x.IsNaN ∧ ¬y.IsNaN ∧ (x.IsFinite ∨ x < y ∨ y < x)

instance (x y : Binary64) : Decidable (HaveDistance x y) := inferInstanceAs (Decidable (_ ∧ _ ∧ _))

theorem unpack_infinity_sub {s : Sign} (hx : x.unpack = .infinity s) (hy : ¬y.IsNaN)
    (hne : y.unpack ≠ .infinity s) : (x - y).unpack = .infinity s := by
  change (pack (UnpackedFloat.sub _ x.unpack y.unpack)).unpack = _
  rw [hx]
  cases huy : y.unpack with
  | notANumber => exact absurd huy hy
  | infinity t =>
      have hts : t ≠ s := fun heq => hne (heq ▸ huy)
      have hopposite : (s == -t) = true := by
        cases s <;> cases t <;> first | rfl | exact absurd rfl hts
      rw [UnpackedFloat.sub, if_pos hopposite]
      exact unpack_pack_infinity s
  | zero t | finite t m e hm => exact unpack_pack_infinity s

theorem unpack_sub_infinity {s : Sign} (hx : x.IsFinite) (hy : y.unpack = .infinity s) :
    (x - y).unpack = .infinity (-s) := by
  change (pack (UnpackedFloat.sub _ x.unpack y.unpack)).unpack = _
  rw [hy]
  rcases hx.cases with ⟨t, hux⟩ | ⟨t, m, e, hm, hux, -⟩
  · rw [hux]
    exact unpack_pack_infinity (-s)
  · rw [hux]
    exact unpack_pack_infinity (-s)

theorem isNaN_sub_self {s : Sign} (hx : x.unpack = .infinity s) (hy : y.unpack = .infinity s) : (x - y).IsNaN := by
  change (pack (UnpackedFloat.sub _ x.unpack y.unpack)).IsNaN
  rw [isNaN_pack, hx, hy]
  cases s <;> rfl

theorem isNaN_sub_left (hx : x.IsNaN) (y : Binary64) : (x - y).IsNaN := by
  change (pack (UnpackedFloat.sub _ x.unpack y.unpack)).IsNaN
  rw [isNaN_pack, hx]
  cases y.unpack <;> rfl

theorem isNaN_sub_right (x : Binary64) (hy : y.IsNaN) : (x - y).IsNaN := by
  change (pack (UnpackedFloat.sub _ x.unpack y.unpack)).IsNaN
  rw [isNaN_pack, hy]
  cases x.unpack <;> rfl

theorem not_isNaN_of_infinity {s : Sign} (hx : x.unpack = .infinity s) : ¬x.IsNaN := by
  rw [IsNaN, hx]
  exact UnpackedFloat.noConfusion

/-- An infinity is told from all other numbers by comparing. -/
theorem infinity_iff_not_lt {s : Sign} (hx : x.unpack = .infinity s) (hy : ¬y.IsNaN) :
    y.unpack = .infinity s ↔ ¬(x < y ∨ y < x) := by
  constructor
  · rintro hys (hlt | hlt)
    · rw [lt_iff_value (not_isNaN_of_infinity hx) hy, value, value, hx, hys] at hlt
      exact lt_irrefl _ hlt
    · rw [lt_iff_value hy (not_isNaN_of_infinity hx), value, value, hx, hys] at hlt
      exact lt_irrefl _ hlt
  · intro hlt
    by_cases hfinite : y.IsFinite
    · cases s with
      | positive => exact absurd (.inr (lt_infinity hfinite hx).1) hlt
      | negative => exact absurd (.inl (infinity_lt hfinite hx).1) hlt
    · obtain ⟨t, ht⟩ := exists_infinity hy hfinite
      rw [lt_iff, lt_iff, hx, ht] at hlt
      cases s <;> cases t <;> first | exact ht | exact absurd (by decide) hlt

theorem not_isNaN_sub_iff : ¬(x - y).IsNaN ↔ HaveDistance x y := by
  constructor
  · intro h
    have hx : ¬x.IsNaN := fun hx => h (isNaN_sub_left hx y)
    have hy : ¬y.IsNaN := fun hy => h (isNaN_sub_right x hy)
    refine ⟨hx, hy, or_iff_not_imp_left.2 fun hinfinite => ?_⟩
    obtain ⟨s, hs⟩ := exists_infinity hx hinfinite
    by_contra hlt
    exact h (isNaN_sub_self hs ((infinity_iff_not_lt hs hy).2 hlt))
  · rintro ⟨hx, hy, hapart⟩
    by_cases hfinite : x.IsFinite
    · by_cases hfinite' : y.IsFinite
      · exact not_isNaN_sub hx hfinite'
      · obtain ⟨s, hs⟩ := exists_infinity hy hfinite'
        exact not_isNaN_of_infinity (unpack_sub_infinity hfinite hs)
    · obtain ⟨s, hs⟩ := exists_infinity hx hfinite
      have hne : y.unpack ≠ .infinity s := fun hys =>
        (infinity_iff_not_lt hs hy).1 hys (hapart.resolve_left hfinite)
      exact not_isNaN_of_infinity (unpack_infinity_sub hs hy hne)

/-! ### Signs -/

/-- The least double above zero. -/
def least : Binary64 := ⟨1#64⟩

theorem toReal_least : least.toReal = 2 ^ (-1074 : Int) := by
  have hunpack : least.unpack = .finite .positive 1 (-1074) (by decide) := rfl
  rw [toReal, hunpack, realOf_finite, signed, Nat.cast_one, one_mul]

/-- A finite double is a multiple of the least one. -/
theorem exists_multiple (hx : x.IsFinite) : ∃ k : Int, x.toReal = k * least.toReal := by
  rw [toReal_least, toReal]
  rcases hx.cases with ⟨s, hux⟩ | ⟨s, m, e, hm, hux, hcanonical, -⟩
  · refine ⟨0, ?_⟩
    rw [hux, realOf_zero, Int.cast_zero, zero_mul]
  · refine ⟨s.apply (decreaseExponent m e (-1074)).1, ?_⟩
    rw [hux, realOf_finite, apply_decreaseExponent s m hcanonical.min_le]

/-- Two finite doubles are no closer than the least one to zero. -/
theorem least_le_sub (hx : x.IsFinite) (hy : y.IsFinite) (h : y < x) : least.toReal ≤ x.toReal - y.toReal := by
  rw [lt_iff_toReal hy hx] at h
  obtain ⟨k, hk⟩ := exists_multiple hx
  obtain ⟨l, hl⟩ := exists_multiple hy
  have hpos : 0 < least.toReal := by
    rw [toReal_least]
    exact zpow_pos two_pos _
  rw [hk, hl] at h
  have hlt : l < k := by exact_mod_cast lt_of_mul_lt_mul_right h hpos.le
  calc least.toReal = 1 * least.toReal := (one_mul _).symm
    _ ≤ ((k - l : Int) : ℝ) * least.toReal :=
        mul_le_mul_of_nonneg_right (by exact_mod_cast Int.sub_pos_of_lt hlt) hpos.le
    _ = x.toReal - y.toReal := by rw [hk, hl, Int.cast_sub, sub_mul]

theorem zero_lt_sub (hx : x.IsFinite) (hy : y.IsFinite) (h : y < x) : ofInt 0 < x - y := by
  have hleast : (ofInt 0).value < least.value := (lt_iff_value (by decide) (by decide)).1 (by decide)
  rw [lt_iff_value (by decide) (not_isNaN_sub hx.not_isNaN hy), value_sub hx hy]
  calc (ofInt 0).value < least.value := hleast
    _ = nearest least.toReal := (nearest_toReal (by decide)).symm
    _ ≤ nearest (x.toReal - y.toReal) := nearest_mono (least_le_sub hx hy h)

/-- A difference that is greater than a finite double is so before it is rounded. -/
theorem add_lt_of_lt_sub (hz : z.IsFinite) (h : z < x - y) : y.value + z.value < x.value := by
  have hnumber := (not_isNaN_of_le (le_of_lt h)).2
  obtain ⟨hx, hy, -⟩ := not_isNaN_sub_iff.1 hnumber
  rw [value_of_isFinite hz]
  by_cases hfinite : x.IsFinite
  · by_cases hfinite' : y.IsFinite
    · rw [lt_iff_value hz.not_isNaN hnumber, value_sub hfinite hfinite', ← nearest_toReal hz] at h
      rw [value_of_isFinite hfinite, value_of_isFinite hfinite', ← EReal.coe_add, EReal.coe_lt_coe_iff]
      by_contra hle
      exact absurd h (nearest_mono (sub_le_iff_le_add'.2 (not_lt.1 hle))).not_gt
    · obtain ⟨s, hs⟩ := exists_infinity hy hfinite'
      have hsub := unpack_sub_infinity hfinite hs
      cases s with
      | positive => exact absurd h (infinity_lt hz hsub).2
      | negative =>
          rw [value, hs, extendedOf, EReal.bot_add, value_of_isFinite hfinite]
          exact EReal.bot_lt_coe _
  · obtain ⟨s, hs⟩ := exists_infinity hx hfinite
    have hne : y.unpack ≠ .infinity s := fun hys => hnumber (isNaN_sub_self hs hys)
    have hsub := unpack_infinity_sub hs hy hne
    cases s with
    | negative => exact absurd h (infinity_lt hz hsub).2
    | positive =>
        have htop : y.value ≠ ⊤ := by
          rw [value]
          cases huy : y.unpack with
          | notANumber => exact absurd huy hy
          | infinity t =>
              cases t with
              | positive => exact absurd huy hne
              | negative => exact bot_ne_top
          | zero t | finite t m e hm => exact EReal.coe_ne_top _
        have hlt := EReal.add_lt_top htop (EReal.coe_ne_top z.toReal)
        rw [value, value, hs]
        exact hlt

/-- The sign of a difference is exact. -/
theorem zero_lt_sub_iff : ofInt 0 < x - y ↔ y < x := by
  constructor
  · intro h
    obtain ⟨hx, hy, -⟩ := not_isNaN_sub_iff.1 (not_isNaN_of_le (le_of_lt h)).2
    have hlt := add_lt_of_lt_sub (by decide) h
    rw [value_zero, add_zero] at hlt
    exact (lt_iff_value hy hx).2 hlt
  · intro h
    obtain ⟨hy, hx⟩ := not_isNaN_of_le (le_of_lt h)
    by_cases hfinite : x.IsFinite
    · by_cases hfinite' : y.IsFinite
      · exact zero_lt_sub hfinite hfinite' h
      · obtain ⟨s, hs⟩ := exists_infinity hy hfinite'
        have hsub := unpack_sub_infinity hfinite hs
        cases s with
        | positive => exact absurd h (lt_infinity hfinite hs).2
        | negative => exact (lt_infinity (by decide) hsub).1
    · obtain ⟨s, hs⟩ := exists_infinity hx hfinite
      have hne : y.unpack ≠ .infinity s := fun hys => (infinity_iff_not_lt hs hy).1 hys (.inr h)
      have hsub := unpack_infinity_sub hs hy hne
      cases s with
      | positive => exact (lt_infinity (by decide) hsub).1
      | negative =>
          have hbot : x.value = ⊥ := by
            rw [value, hs]
            rfl
          rw [lt_iff_value hy hx, hbot] at h
          exact absurd h not_lt_bot

/-- What is less than another number, and not below zero, is finite. -/
theorem isFinite_of_nonneg_of_lt (hx : ofInt 0 ≤ x) (hlt : x < y) : x.IsFinite := by
  obtain ⟨hnumber, hy⟩ := not_isNaN_of_le (le_of_lt hlt)
  rw [le_iff_value (not_isNaN_ofInt 0) hnumber, value_of_isFinite (by decide)] at hx
  rw [lt_iff_value hnumber hy] at hlt
  exact (isFinite_iff_value hnumber).2 ⟨(EReal.bot_lt_coe _).trans_le hx, hlt.trans_le le_top⟩

end Binary64
