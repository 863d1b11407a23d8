import Mathlib.Analysis.Real.Sqrt
import RobotEmu.Arithmetic

/-! Square roots, and rounding to a whole number: the way `std::chrono` rounds ticks, to the nearest and half
way between two to the even one, and the way `std::llround` does, half way to the one farther from zero. -/

/-- The square root of `<cmath>`, and the conversion to an integer, which drops the fraction. -/
class Cmath (F : Type*) where
  sqrt : F → F
  toInt : F → Int

noncomputable instance : Cmath ℝ where
  sqrt := Real.sqrt
  toInt x := if 0 ≤ x then ⌊x⌋ else ⌈x⌉

namespace Chrono

open Arith Cmath

section Definitions

variable {F : Type*} [Arith F] [Cmath F]

/-- `std::chrono::floor`. -/
def floor (ticks : F) : Int := if ofInt (toInt ticks) > ticks then toInt ticks - 1 else toInt ticks

/-- `std::chrono::round`. -/
def round (ticks : F) : Int :=
  let t0 := floor ticks
  let t1 := t0 + 1
  let diff0 := ticks - ofInt t0
  let diff1 := ofInt t1 - ticks
  if StdEq diff0 diff1 then
    if t0 % 2 = 1 then t1 else t0
  else if diff0 < diff1 then t0
  else t1

end Definitions

variable (x : ℝ)

theorem floor_eq : floor x = ⌊x⌋ := by
  rw [floor, ofInt_eq]
  by_cases hx : 0 ≤ x
  · have htoInt : toInt x = ⌊x⌋ := if_pos hx
    rw [htoInt, if_neg (not_lt.2 (Int.floor_le x))]
  · have htoInt : toInt x = ⌈x⌉ := if_neg hx
    rw [htoInt]
    split_ifs with h
    · refine (Int.floor_eq_iff.2 ⟨?_, ?_⟩).symm
      · push_cast
        have := Int.ceil_lt_add_one x
        linarith
      · push_cast
        linarith
    · exact (Int.floor_eq_iff.2 ⟨not_lt.1 h, (Int.le_ceil x).trans_lt (lt_add_one _)⟩).symm

/-- The whole number below or the one above, whichever is nearer. -/
theorem round_cases :
    (round x = ⌊x⌋ ∧ (x < ⌊x⌋ + 1 / 2 ∨ x = ⌊x⌋ + 1 / 2 ∧ ⌊x⌋ % 2 = 0)) ∨
      (round x = ⌊x⌋ + 1 ∧ (⌊x⌋ + 1 / 2 < x ∨ x = ⌊x⌋ + 1 / 2 ∧ ⌊x⌋ % 2 = 1)) := by
  simp only [round, floor_eq, stdEq_iff, ofInt_eq, Int.cast_add, Int.cast_one]
  split_ifs with hhalf hodd hbelow
  · exact .inr ⟨rfl, .inr ⟨by linarith, hodd⟩⟩
  · exact .inl ⟨rfl, .inr ⟨by linarith, by omega⟩⟩
  · exact .inl ⟨rfl, .inl (by linarith)⟩
  · refine .inr ⟨rfl, .inl ?_⟩
    have hle := not_lt.1 hbelow
    have hne : x ≠ ⌊x⌋ + 1 / 2 := fun heq => hhalf (by linarith)
    exact lt_of_le_of_ne (by linarith) hne.symm

theorem le_round_add_half : x ≤ round x + 1 / 2 := by
  rcases round_cases x with ⟨h, hx⟩ | ⟨h, -⟩
  · rw [h]
    rcases hx with hlt | ⟨heq, -⟩
    · exact hlt.le
    · exact heq.le
  · have hlt := Int.lt_floor_add_one x
    rw [h]
    push_cast
    linarith

variable {x}

/-- The even number is reached from half a tick below it. -/
theorem round_lt_iff {n : Int} (h : n % 2 = 0) : round x < n ↔ x < n - 1 / 2 := by
  have hfloor := Int.floor_le x
  have hfloor' := Int.lt_floor_add_one x
  have hle : ∀ {k : Int}, k ≤ n → (k : ℝ) ≤ n := Int.cast_le.2
  rcases round_cases x with ⟨hround, hx⟩ | ⟨hround, hx⟩
  · rw [hround]
    constructor
    · intro hlt
      rcases hx with hbelow | ⟨hhalf, heven⟩
      · have hcast := hle (show ⌊x⌋ + 1 ≤ n by omega)
        push_cast at hcast
        linarith
      · have hcast := hle (show ⌊x⌋ + 2 ≤ n by omega)
        push_cast at hcast
        linarith
    · intro hlt
      have hcast : (⌊x⌋ : ℝ) < n := by linarith
      exact Int.cast_lt.1 hcast
  · rw [hround]
    constructor
    · intro hlt
      have hcast := hle (show ⌊x⌋ + 2 ≤ n by omega)
      push_cast at hcast
      linarith
    · intro hlt
      have hhalf : (⌊x⌋ : ℝ) + 1 / 2 ≤ x := by
        rcases hx with habove | ⟨hhalf, -⟩
        · exact habove.le
        · exact hhalf.ge
      have hcast : ((⌊x⌋ + 1 : Int) : ℝ) < n := by
        push_cast
        linarith
      exact Int.cast_lt.1 hcast

end Chrono

/-! ### Half way away from zero

`std::llround` rounds to the nearest whole number, and half way between two to the one farther from zero.
Its result is an `std::int64_t`; where the rounded number is none, the standard does not say what the result
is. -/

namespace Llround

open Arith

/-- The rounded number. -/
noncomputable def nearest (x : ℝ) : Int := if 0 ≤ x then ⌊x + 1 / ofInt 2⌋ else ⌈x - 1 / ofInt 2⌉

theorem nearest_of_nonneg {x : ℝ} (hx : 0 ≤ x) : nearest x = ⌊x + 1 / 2⌋ := by
  rw [nearest, if_pos hx, ofInt_eq, Int.cast_ofNat]

theorem nearest_of_neg {x : ℝ} (hx : x < 0) : nearest x = ⌈x - 1 / 2⌉ := by
  rw [nearest, if_neg (not_le.2 hx), ofInt_eq, Int.cast_ofNat]

theorem abs_nearest_sub_le (x : ℝ) : |nearest x - x| ≤ 1 / 2 := by
  rcases le_or_gt 0 x with hx | hx
  · have hfloor := Int.floor_le (x + 1 / 2)
    have hlt := Int.lt_floor_add_one (x + 1 / 2)
    rw [nearest_of_nonneg hx]
    exact abs_le.2 ⟨by linarith, by linarith⟩
  · have hceil := Int.le_ceil (x - 1 / 2)
    have hlt := Int.ceil_lt_add_one (x - 1 / 2)
    rw [nearest_of_neg hx]
    exact abs_le.2 ⟨by linarith, by linarith⟩

theorem nearest_neg (x : ℝ) : nearest (-x) = -nearest x := by
  rcases lt_trichotomy x 0 with hx | rfl | hx
  · rw [nearest_of_nonneg (neg_nonneg.2 hx.le), nearest_of_neg hx, ← Int.floor_neg, neg_sub, neg_add_eq_sub]
  · rw [neg_zero, nearest_of_nonneg (le_refl 0)]
    norm_num
  · rw [nearest_of_neg (neg_lt_zero.2 hx), nearest_of_nonneg hx.le, ← Int.ceil_neg, neg_add']

theorem nearest_intCast (n : Int) : nearest n = n := by
  rcases le_or_gt 0 (n : ℝ) with hn | hn
  · rw [nearest_of_nonneg hn, Int.floor_intCast_add, Int.floor_eq_zero_iff.2 (by norm_num), add_zero]
  · rw [nearest_of_neg hn, sub_eq_add_neg, Int.ceil_intCast_add, Int.ceil_eq_zero_iff.2 (by norm_num),
      add_zero]

theorem nearest_nonneg {x : ℝ} (hx : 0 ≤ x) : 0 ≤ nearest x := by
  rw [nearest_of_nonneg hx]
  exact Int.floor_nonneg.2 (by linarith)

theorem nearest_mono {x y : ℝ} (hxy : x ≤ y) : nearest x ≤ nearest y := by
  rcases le_or_gt 0 x with hx | hx
  · rw [nearest_of_nonneg hx, nearest_of_nonneg (hx.trans hxy)]
    exact Int.floor_le_floor (by linarith)
  · rcases le_or_gt 0 y with hy | hy
    · calc nearest x = -nearest (-x) := by rw [nearest_neg, neg_neg]
        _ ≤ 0 := neg_nonpos.2 (nearest_nonneg (by linarith))
        _ ≤ nearest y := nearest_nonneg hy
    · rw [nearest_of_neg hx, nearest_of_neg hy]
      exact Int.ceil_le_ceil (by linarith)

end Llround
