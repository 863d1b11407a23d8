import Mathlib.Analysis.Convex.Basic
import Mathlib.Analysis.SpecialFunctions.Exp
import RobotEmu.Arithmetic

/-! A value that follows a target with a first-order lag: over any time it keeps a fraction of its
distance from the target, and the fractions of successive times multiply. Where it gets to is a convex
combination of where it was and of the target. -/

namespace Lag

variable {K : Type*} [Field K] [LinearOrder K]

/-- The value that keeps a fraction of its distance from the target. -/
def follow (target fraction value : K) : K := target + (value - target) * fraction

theorem follow_follow (target a b value : K) :
    follow target b (follow target a value) = follow target (a * b) value := by
  simp only [follow, add_sub_cancel_left, mul_assoc]

variable [IsStrictOrderedRing K]

/-- A convex set that holds the value and the target holds what the value becomes. -/
theorem follow_mem {s : Set K} (hs : Convex K s) {target fraction value : K} (htarget : target ∈ s)
    (hvalue : value ∈ s) (h0 : 0 ≤ fraction) (h1 : fraction ≤ 1) : follow target fraction value ∈ s := by
  have hcombination : follow target fraction value = (1 - fraction) • target + fraction • value := by
    rw [follow, smul_eq_mul, smul_eq_mul]
    ring
  rw [hcombination]
  exact hs htarget hvalue (sub_nonneg.2 h1) h0 (sub_add_cancel 1 fraction)

/-- The value has come strictly closer to the target and has not crossed it, unless it was there. -/
structure Approaches (target before now : K) : Prop where
  rest : before = target → now = target
  closer : before ≠ target → |now - target| < |before - target|
  same_side : before ≠ target → 0 < (before - target) * (now - target)

theorem approaches_follow {fraction : K} (h0 : 0 < fraction) (h1 : fraction < 1) (target value : K) :
    Approaches target value (follow target fraction value) where
  rest h := by rw [follow, h, sub_self, zero_mul, add_zero]
  closer h := by
    have hdistance : 0 < |value - target| := abs_pos.2 (sub_ne_zero.2 h)
    calc |follow target fraction value - target| = |value - target| * fraction := by
          rw [follow, add_sub_cancel_left, abs_mul, abs_of_pos h0]
      _ < |value - target| := mul_lt_of_lt_one_right hdistance h1
  same_side h := by
    rw [follow, add_sub_cancel_left, ← mul_assoc]
    exact mul_pos (mul_self_pos.2 (sub_ne_zero.2 h)) h0

/-- Where two steps in a row are one step of their sum, so are the steps of a list. -/
theorem foldl_eq_sum {σ : Type*} {step : σ → Int → σ} (hzero : ∀ s, step s 0 = s)
    (hadd : ∀ s a b, 0 < a → 0 < b → step (step s a) b = step s (a + b)) (steps : List Int)
    (hsteps : ∀ dt ∈ steps, 0 < dt) (s : σ) : steps.foldl step s = step s steps.sum := by
  induction steps generalizing s with
  | nil => exact (hzero s).symm
  | cons dt steps ih =>
      have hdt := hsteps dt List.mem_cons_self
      have hrest : ∀ dt ∈ steps, 0 < dt := fun dt hmem => hsteps dt (List.mem_cons_of_mem _ hmem)
      rw [List.foldl_cons, ih hrest, List.sum_cons]
      rcases (List.sum_nonneg fun dt hmem => (hrest dt hmem).le).eq_or_lt with hsum | hsum
      · rw [← hsum, hzero, add_zero]
      · exact hadd s dt steps.sum hdt hsum

/-! ### Exponential decay -/

/-- The fraction kept over a time. -/
noncomputable def decay (timeConstant t : ℝ) : ℝ := Real.exp (-t / timeConstant)

theorem decay_add (timeConstant s t : ℝ) :
    decay timeConstant (s + t) = decay timeConstant s * decay timeConstant t := by
  rw [decay, decay, decay, ← Real.exp_add, ← add_div, neg_add]

theorem decay_pos (timeConstant t : ℝ) : 0 < decay timeConstant t := Real.exp_pos _

theorem decay_lt_one {timeConstant t : ℝ} (hconstant : 0 < timeConstant) (ht : 0 < t) : decay timeConstant t < 1 :=
  Real.exp_lt_one_iff.2 (div_neg_of_neg_of_pos (neg_lt_zero.2 ht) hconstant)

end Lag
