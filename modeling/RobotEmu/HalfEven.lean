import Mathlib

/-! Rounding to the nearest whole number, half way between two to the even one. It keeps the order, fixes the
whole numbers and does to a negated number what it does to the number. -/

namespace HalfEven

variable {K : Type*} [Field K] [LinearOrder K] [FloorRing K]

/-- The whole number nearest to `x`, and half way between two the even one. -/
def round (x : K) : ℤ :=
  if Int.fract x < 1 - Int.fract x then ⌊x⌋
  else if 1 - Int.fract x < Int.fract x then ⌊x⌋ + 1
  else ⌊x⌋ + ⌊x⌋ % 2

theorem floor_le_round (x : K) : ⌊x⌋ ≤ round x := by
  rw [round]
  split_ifs <;> omega

theorem round_le_floor_add_one (x : K) : round x ≤ ⌊x⌋ + 1 := by
  rw [round]
  split_ifs <;> omega

variable [IsStrictOrderedRing K]

theorem round_intCast (n : ℤ) : round (n : K) = n := by
  rw [round, Int.fract_intCast, if_pos (by rw [sub_zero]; exact zero_lt_one), Int.floor_intCast]

theorem round_mono {x y : K} (h : x ≤ y) : round x ≤ round y := by
  rcases lt_or_eq_of_le (Int.floor_mono h) with hlt | heq
  · calc round x ≤ ⌊x⌋ + 1 := round_le_floor_add_one x
      _ ≤ ⌊y⌋ := hlt
      _ ≤ round y := floor_le_round y
  · have hfract : Int.fract x ≤ Int.fract y := by
      rw [Int.fract, Int.fract, heq]
      exact sub_le_sub_right h _
    rw [round, round, heq]
    split_ifs
    · exact le_refl _
    · omega
    · omega
    · linarith
    · exact le_refl _
    · linarith
    · linarith
    · omega
    · exact le_refl _

theorem le_round {n : ℤ} {x : K} (h : (n : K) ≤ x) : n ≤ round x := by
  have hmono := round_mono h
  rwa [round_intCast] at hmono

theorem round_le {n : ℤ} {x : K} (h : x ≤ n) : round x ≤ n := by
  have hmono := round_mono h
  rwa [round_intCast] at hmono

theorem round_neg (x : K) : round (-x) = -round x := by
  by_cases hx : Int.fract x = 0
  · obtain ⟨n, hn⟩ := Int.fract_eq_zero_iff.1 hx
    rw [← hn, ← Int.cast_neg, round_intCast, round_intCast]
  · have hfloor : ⌊-x⌋ = -⌊x⌋ - 1 := by
      rw [Int.floor_eq_iff]
      have hpos := lt_of_le_of_ne (Int.fract_nonneg x) (Ne.symm hx)
      have hlt := Int.fract_lt_one x
      rw [Int.fract] at hpos hlt
      push_cast
      constructor <;> linarith
    rw [round, round, Int.fract_neg hx, hfloor, sub_sub_cancel]
    split_ifs
    · linarith
    · omega
    · omega
    · omega

theorem abs_round_sub_le (x : K) : |(round x : K) - x| ≤ 1 / 2 := by
  have hsplit := Int.self_sub_floor x
  have hpos := Int.fract_nonneg x
  have hlt := Int.fract_lt_one x
  rw [round]
  split_ifs with hbelow habove
  · rw [abs_le]
    constructor <;> linarith
  · rw [Int.cast_add, Int.cast_one, abs_le]
    constructor <;> linarith
  · have hparity : ((⌊x⌋ % 2 : ℤ) : K) = 0 ∨ ((⌊x⌋ % 2 : ℤ) : K) = 1 := by
      rcases Int.emod_two_eq_zero_or_one ⌊x⌋ with hzero | hone
      · exact .inl (by rw [hzero, Int.cast_zero])
      · exact .inr (by rw [hone, Int.cast_one])
    rw [Int.cast_add, abs_le]
    rcases hparity with hzero | hone
    · rw [hzero]
      constructor <;> linarith
    · rw [hone]
      constructor <;> linarith

end HalfEven
