import Mathlib.Analysis.Real.Pi.Bounds
import RobotEmu.HardwareMotor
import RobotEmu.Rounding

/-! `virtual_encoder.cpp`: a position is reported as a whole number of steps, and as that many steps in
radians. In exact arithmetic the report is off by half a step at most, keeps the order and the sign of
positions, and is itself a position that is reported as it is. -/

namespace RobotEmu

open Arith

/-- What the encoder takes from `<numbers>` and `<cmath>`. -/
structure EncoderStd (F : Type*) where
  pi : F
  llround : F → Int64

structure VirtualEncoder where
  countsPerRevolution : BitVec 32
  nonzero : countsPerRevolution ≠ 0

namespace VirtualEncoder

def create (countsPerRevolution : BitVec 32) : Except HardwareError VirtualEncoder :=
  if h : countsPerRevolution = 0 then .error .invalidConfiguration else .ok ⟨countsPerRevolution, h⟩

section Definitions

variable {F : Type*} [Arith F] (std : EncoderStd F) (encoder : VirtualEncoder)

def resolutionRadians (pi : F) : F := ofInt 2 * pi / ofInt encoder.countsPerRevolution.toNat

def counts (truePositionRadians : F) : Int64 :=
  std.llround (truePositionRadians / encoder.resolutionRadians std.pi)

def sample (truePositionRadians : F) : F :=
  ofInt (encoder.counts std truePositionRadians).toInt * encoder.resolutionRadians std.pi

end Definitions

/-! ### Quantisation in exact arithmetic -/

/-- Exact arithmetic. What `std::llround` returns outside the range of its result is not specified. -/
noncomputable def exact (unspecified : ℝ → Int64) : EncoderStd ℝ where
  pi := Real.pi
  llround x :=
    if -2 ^ 63 ≤ Llround.nearest x ∧ Llround.nearest x < 2 ^ 63 then Int64.ofInt (Llround.nearest x)
    else unspecified x

/-- The quotient by the resolution rounds into the signed 64-bit range. -/
def InRange (encoder : VirtualEncoder) (x : ℝ) : Prop :=
  -2 ^ 63 ≤ Llround.nearest (x / encoder.resolutionRadians Real.pi) ∧
    Llround.nearest (x / encoder.resolutionRadians Real.pi) < 2 ^ 63

variable (unspecified : ℝ → Int64) (encoder : VirtualEncoder)

theorem resolutionRadians_pi :
    encoder.resolutionRadians Real.pi = 2 * Real.pi / encoder.countsPerRevolution.toNat := by
  rw [resolutionRadians, ofInt_eq, ofInt_eq, Int.cast_natCast, Int.cast_ofNat]

theorem resolutionRadians_pos : 0 < encoder.resolutionRadians Real.pi := by
  have hcounts : 0 < encoder.countsPerRevolution.toNat := by
    rw [Nat.pos_iff_ne_zero]
    exact fun h => encoder.nonzero (BitVec.eq_of_toNat_eq h)
  rw [resolutionRadians_pi]
  exact div_pos (mul_pos two_pos Real.pi_pos) (Nat.cast_pos.2 hcounts)

/-- In range the count is the rounded quotient. -/
theorem toInt_counts {x : ℝ} (h : encoder.InRange x) : (encoder.counts (exact unspecified) x).toInt =
    Llround.nearest (x / encoder.resolutionRadians Real.pi) := by
  have hllround : encoder.counts (exact unspecified) x =
      Int64.ofInt (Llround.nearest (x / encoder.resolutionRadians Real.pi)) := if_pos h
  rw [hllround]
  exact Int64.toInt_ofInt_of_le h.1 h.2

theorem sample_eq {x : ℝ} (h : encoder.InRange x) : encoder.sample (exact unspecified) x =
    Llround.nearest (x / encoder.resolutionRadians Real.pi) * encoder.resolutionRadians Real.pi := by
  rw [sample, toInt_counts unspecified encoder h]
  rfl

theorem abs_sample_sub_le {x : ℝ} (h : encoder.InRange x) :
    |encoder.sample (exact unspecified) x - x| ≤ encoder.resolutionRadians Real.pi / 2 := by
  have hpos := resolutionRadians_pos encoder
  rw [sample_eq unspecified encoder h]
  set r := encoder.resolutionRadians Real.pi
  calc |Llround.nearest (x / r) * r - x| = |(Llround.nearest (x / r) - x / r) * r| := by
        rw [sub_mul, div_mul_cancel₀ x hpos.ne']
    _ = |Llround.nearest (x / r) - x / r| * r := by rw [abs_mul, abs_of_pos hpos]
    _ ≤ 1 / 2 * r := mul_le_mul_of_nonneg_right (Llround.abs_nearest_sub_le (x / r)) hpos.le
    _ = r / 2 := one_div_mul_eq_div 2 r

theorem counts_mono {x y : ℝ} (hx : encoder.InRange x) (hy : encoder.InRange y) (hxy : x ≤ y) :
    encoder.counts (exact unspecified) x ≤ encoder.counts (exact unspecified) y := by
  rw [Int64.le_iff_toInt_le, toInt_counts unspecified encoder hx, toInt_counts unspecified encoder hy]
  exact Llround.nearest_mono (div_le_div_of_nonneg_right hxy (resolutionRadians_pos encoder).le)

/-- The mirrored position is out of range only for the least count. -/
theorem inRange_neg {x : ℝ} (h : encoder.InRange x)
    (hleast : (encoder.counts (exact unspecified) x).toInt ≠ -2 ^ 63) : encoder.InRange (-x) := by
  rw [toInt_counts unspecified encoder h] at hleast
  rw [InRange, neg_div, Llround.nearest_neg]
  rw [InRange] at h
  omega

theorem toInt_counts_neg {x : ℝ} (h : encoder.InRange x)
    (hleast : (encoder.counts (exact unspecified) x).toInt ≠ -2 ^ 63) :
    (encoder.counts (exact unspecified) (-x)).toInt = -(encoder.counts (exact unspecified) x).toInt := by
  rw [toInt_counts unspecified encoder (inRange_neg unspecified encoder h hleast),
    toInt_counts unspecified encoder h, neg_div, Llround.nearest_neg]

/-- A whole number of steps is reported as it is. -/
theorem nearest_steps (steps : Int) : Llround.nearest
    (steps * encoder.resolutionRadians Real.pi / encoder.resolutionRadians Real.pi) = steps := by
  rw [mul_div_cancel_right₀ _ (resolutionRadians_pos encoder).ne', Llround.nearest_intCast]

theorem toInt_counts_steps {steps : Int} (h : encoder.InRange (steps * encoder.resolutionRadians Real.pi)) :
    (encoder.counts (exact unspecified) (steps * encoder.resolutionRadians Real.pi)).toInt = steps := by
  rw [toInt_counts unspecified encoder h, nearest_steps]

theorem counts_sample {x : ℝ} (h : encoder.InRange x) :
    encoder.counts (exact unspecified) (encoder.sample (exact unspecified) x) =
      encoder.counts (exact unspecified) x := by
  have hrange : encoder.InRange (encoder.sample (exact unspecified) x) := by
    rw [InRange, sample_eq unspecified encoder h, nearest_steps]
    exact h
  rw [sample_eq unspecified encoder h] at hrange ⊢
  rw [← Int64.toInt_inj, toInt_counts_steps unspecified encoder hrange, toInt_counts unspecified encoder h]

/-- The quantisation laws. The count of the mirrored position is the opposite number unless that number
is no 64-bit integer. -/
theorem quantisation_laws {x y : ℝ} (hx : encoder.InRange x) (hy : encoder.InRange y) (hxy : x ≤ y) :
    encoder.resolutionRadians Real.pi = 2 * Real.pi / encoder.countsPerRevolution.toNat ∧
      |encoder.sample (exact unspecified) x - x| ≤ encoder.resolutionRadians Real.pi / 2 ∧
      encoder.counts (exact unspecified) x ≤ encoder.counts (exact unspecified) y ∧
      ((encoder.counts (exact unspecified) x).toInt ≠ -2 ^ 63 →
        (encoder.counts (exact unspecified) (-x)).toInt = -(encoder.counts (exact unspecified) x).toInt) ∧
      encoder.counts (exact unspecified) (encoder.sample (exact unspecified) x) =
        encoder.counts (exact unspecified) x :=
  ⟨resolutionRadians_pi encoder, abs_sample_sub_le unspecified encoder hx,
    counts_mono unspecified encoder hx hy hxy, toInt_counts_neg unspecified encoder hx,
    counts_sample unspecified encoder hx⟩

/-- One step on from zero, with four steps to the revolution, and mirrored. -/
theorem quantisation_laws_step : ((VirtualEncoder.mk 4 (by decide)).counts (exact fun _ => 0)
    (-((1 : Int) * (VirtualEncoder.mk 4 (by decide)).resolutionRadians Real.pi))).toInt = -1 := by
  have hrange : (VirtualEncoder.mk 4 (by decide)).InRange
      ((1 : Int) * (VirtualEncoder.mk 4 (by decide)).resolutionRadians Real.pi) := by
    rw [InRange, nearest_steps]
    decide
  have hone := toInt_counts_steps (fun _ => 0) ⟨4, by decide⟩ hrange
  have hlaws := quantisation_laws (fun _ => 0) ⟨4, by decide⟩ hrange hrange (le_refl _)
  rw [hlaws.2.2.2.1 (by rw [hone]; decide), hone]

/-- At the least count the mirrored position has no count, whatever `std::llround` returns there. -/
theorem not_odd_at_least_count :
    (VirtualEncoder.mk 4 (by decide)).InRange
        ((-2 ^ 63 : Int) * (VirtualEncoder.mk 4 (by decide)).resolutionRadians Real.pi) ∧
      ¬∃ unspecified, ((VirtualEncoder.mk 4 (by decide)).counts (exact unspecified)
          (-((-2 ^ 63 : Int) * (VirtualEncoder.mk 4 (by decide)).resolutionRadians Real.pi))).toInt =
        -((VirtualEncoder.mk 4 (by decide)).counts (exact unspecified)
          ((-2 ^ 63 : Int) * (VirtualEncoder.mk 4 (by decide)).resolutionRadians Real.pi)).toInt := by
  have hrange : (VirtualEncoder.mk 4 (by decide)).InRange
      ((-2 ^ 63 : Int) * (VirtualEncoder.mk 4 (by decide)).resolutionRadians Real.pi) := by
    rw [InRange, nearest_steps]
    decide
  refine ⟨hrange, ?_⟩
  rintro ⟨unspecified, hodd⟩
  have hlt := Int64.toInt_lt ((VirtualEncoder.mk 4 (by decide)).counts (exact unspecified)
    (-((-2 ^ 63 : Int) * (VirtualEncoder.mk 4 (by decide)).resolutionRadians Real.pi)))
  rw [hodd, toInt_counts_steps unspecified _ hrange] at hlt
  exact absurd hlt (by decide)

end VirtualEncoder
end RobotEmu
