import Mathlib.Analysis.SpecialFunctions.Integrals.Basic
import RobotEmu.Arithmetic

/-! Motion from rest to rest with a trapezoid of speed: the speed rises evenly, is kept for a while, and falls
as it has risen. The way covered is the integral of the speed; it grows no faster than the highest speed, and
the speed changes no faster than the slope. -/

/-- A slope, the time the speed rises and the time it is kept. -/
structure Trapezoid where
  slope : ℝ
  rise : ℝ
  flat : ℝ
  slope_pos : 0 < slope
  rise_pos : 0 < rise
  flat_nonneg : 0 ≤ flat

namespace Trapezoid

variable (p : Trapezoid) {x y : ℝ}

noncomputable section

def time : ℝ := 2 * p.rise + p.flat

def top : ℝ := p.slope * p.rise

/-- Zero before the motion and after it. -/
def speed (x : ℝ) : ℝ := p.slope * max 0 (min p.rise (min x (p.time - x)))

def covered (x : ℝ) : ℝ := ∫ t in (0 : ℝ)..x, p.speed t

end

theorem time_pos : 0 < p.time := by
  have hrise := p.rise_pos
  have hflat := p.flat_nonneg
  rw [time]
  linarith

theorem top_pos : 0 < p.top := mul_pos p.slope_pos p.rise_pos

theorem speed_nonneg (x : ℝ) : 0 ≤ p.speed x := mul_nonneg p.slope_pos.le (le_max_left _ _)

theorem speed_le_top (x : ℝ) : p.speed x ≤ p.top :=
  mul_le_mul_of_nonneg_left (max_le p.rise_pos.le (min_le_left _ _)) p.slope_pos.le

theorem speed_of_rise (h : 0 ≤ x) (h' : x ≤ p.rise) : p.speed x = p.slope * x := by
  have hflat := p.flat_nonneg
  rw [speed, min_eq_left (show x ≤ p.time - x by rw [time]; linarith), min_eq_right h', max_eq_right h]

theorem speed_of_flat (h : p.rise ≤ x) (h' : x ≤ p.rise + p.flat) : p.speed x = p.top := by
  rw [speed, min_eq_left (le_min h (by rw [time]; linarith)), max_eq_right p.rise_pos.le, top]

theorem speed_of_fall (h : p.rise + p.flat ≤ x) (h' : x ≤ p.time) : p.speed x = p.slope * (p.time - x) := by
  have hflat := p.flat_nonneg
  have hrise := p.rise_pos
  have htime : p.time - x ≤ p.rise := by
    rw [time]
    linarith
  rw [speed, min_eq_right (show p.time - x ≤ x by linarith), min_eq_right htime, max_eq_right (by linarith)]

/-- The speed changes no faster than the slope. -/
theorem abs_speed_sub_le (x y : ℝ) : |p.speed x - p.speed y| ≤ p.slope * |x - y| := by
  have hmirror : |p.time - x - (p.time - y)| = |x - y| := by
    rw [show p.time - x - (p.time - y) = -(x - y) by ring, abs_neg]
  have hmin := abs_min_sub_min_le_max x (p.time - x) y (p.time - y)
  have hmin' := abs_min_sub_min_le_max p.rise (min x (p.time - x)) p.rise (min y (p.time - y))
  have hmax := abs_max_sub_max_le_max 0 (min p.rise (min x (p.time - x))) 0 (min p.rise (min y (p.time - y)))
  have hsame : ∀ c z : ℝ, max |c - c| |z| = |z| := fun c z => by
    rw [sub_self, abs_zero, max_eq_right (abs_nonneg z)]
  rw [hmirror, max_self] at hmin
  rw [hsame] at hmin' hmax
  calc |p.speed x - p.speed y|
      = p.slope * |max 0 (min p.rise (min x (p.time - x))) - max 0 (min p.rise (min y (p.time - y)))| := by
        rw [speed, speed, ← mul_sub, abs_mul, abs_of_pos p.slope_pos]
    _ ≤ p.slope * |x - y| :=
        mul_le_mul_of_nonneg_left (hmax.trans (hmin'.trans hmin)) p.slope_pos.le

theorem continuous_speed : Continuous p.speed := by
  unfold speed
  fun_prop

theorem covered_sub (x y : ℝ) : p.covered y - p.covered x = ∫ t in x..y, p.speed t :=
  intervalIntegral.integral_interval_sub_left (p.continuous_speed.intervalIntegrable _ _)
    (p.continuous_speed.intervalIntegrable _ _)

theorem covered_zero : p.covered 0 = 0 := intervalIntegral.integral_same

theorem covered_mono (h : x ≤ y) : p.covered x ≤ p.covered y := by
  rw [← sub_nonneg, covered_sub]
  exact intervalIntegral.integral_nonneg h fun t _ => p.speed_nonneg t

/-- The way grows no faster than the highest speed. -/
theorem abs_covered_sub_le (x y : ℝ) : |p.covered x - p.covered y| ≤ p.top * |x - y| := by
  rw [covered_sub, ← Real.norm_eq_abs]
  refine intervalIntegral.norm_integral_le_of_norm_le_const fun t _ => ?_
  rw [Real.norm_eq_abs, abs_of_nonneg (p.speed_nonneg t)]
  exact p.speed_le_top t

/-! ### The way within each part of the motion -/

theorem covered_of_rise (h : 0 ≤ x) (h' : x ≤ p.rise) : p.covered x = p.slope / 2 * x ^ 2 := by
  have hspeed : Set.EqOn p.speed (fun t => p.slope * t) (Set.uIcc 0 x) := by
    intro t ht
    rw [Set.uIcc_of_le h] at ht
    exact p.speed_of_rise ht.1 (ht.2.trans h')
  rw [covered, intervalIntegral.integral_congr hspeed, intervalIntegral.integral_const_mul, integral_id]
  ring

theorem covered_of_flat (h : p.rise ≤ x) (h' : x ≤ p.rise + p.flat) :
    p.covered x = p.slope / 2 * p.rise ^ 2 + p.top * (x - p.rise) := by
  have hspeed : Set.EqOn p.speed (fun _ => p.top) (Set.uIcc p.rise x) := by
    intro t ht
    rw [Set.uIcc_of_le h] at ht
    exact p.speed_of_flat ht.1 (ht.2.trans h')
  have hsub := p.covered_sub p.rise x
  rw [intervalIntegral.integral_congr hspeed, intervalIntegral.integral_const, smul_eq_mul,
    p.covered_of_rise p.rise_pos.le (le_refl _)] at hsub
  linarith

theorem covered_of_fall (h : p.rise + p.flat ≤ x) (h' : x ≤ p.time) :
    p.covered x = p.slope / 2 * p.rise ^ 2 + p.top * p.flat + p.top * (x - p.rise - p.flat)
      - p.slope / 2 * (x - p.rise - p.flat) ^ 2 := by
  have hspeed : Set.EqOn p.speed (fun t => p.slope * (p.time - t)) (Set.uIcc (p.rise + p.flat) x) := by
    intro t ht
    rw [Set.uIcc_of_le h] at ht
    exact p.speed_of_fall ht.1 (ht.2.trans h')
  have hflat := p.flat_nonneg
  have hsub := p.covered_sub (p.rise + p.flat) x
  rw [intervalIntegral.integral_congr hspeed, intervalIntegral.integral_const_mul,
    intervalIntegral.integral_sub (by simp) (by simp), intervalIntegral.integral_const, integral_id, smul_eq_mul,
    p.covered_of_flat (by linarith) (le_refl _)] at hsub
  rw [time, top] at *
  linarith

/-- The whole way. -/
theorem covered_time : p.covered p.time = p.top * (p.rise + p.flat) := by
  have hrise := p.rise_pos
  rw [p.covered_of_fall (by rw [time]; linarith) (le_refl _), time, top]
  ring

theorem covered_time_pos : 0 < p.covered p.time := by
  rw [covered_time]
  exact mul_pos p.top_pos (add_pos_of_pos_of_nonneg p.rise_pos p.flat_nonneg)

theorem covered_mem (h : 0 ≤ x) (h' : x ≤ p.time) : 0 ≤ p.covered x ∧ p.covered x ≤ p.covered p.time := by
  have hstart := p.covered_mono h
  rw [covered_zero] at hstart
  exact ⟨hstart, p.covered_mono h'⟩

/-! ### The fastest motion

Under a bound on the speed the fastest motion rises until the bound or until it has to fall. How far it gets in
a given time grows with the time, so that its time is compared by the way it covers. -/

/-- Nothing is kept below the highest speed that is allowed. -/
def Fastest (limit : ℝ) : Prop := p.top ≤ limit ∧ (p.top = limit ∨ p.flat = 0)

/-- The way that a speed of at most `limit` covers from rest to rest in the time `x`. -/
noncomputable def reach (limit slope x : ℝ) : ℝ :=
  slope * min (x / 2) (limit / slope) * (x - min (x / 2) (limit / slope))

theorem reach_time {limit : ℝ} (h : p.Fastest limit) : reach limit p.slope p.time = p.covered p.time := by
  have hslope := p.slope_pos
  have hflat := p.flat_nonneg
  have hhalf : p.rise ≤ p.time / 2 := by
    rw [time]
    linarith
  have hlimit : p.rise ≤ limit / p.slope := by
    rw [le_div_iff₀ hslope, mul_comm]
    exact h.1
  have hmin : min (p.time / 2) (limit / p.slope) = p.rise := by
    rcases h.2 with htop | hzero
    · rw [← htop, top, mul_div_cancel_left₀ _ hslope.ne', min_eq_right hhalf]
    · rw [time, hzero, add_zero, mul_div_cancel_left₀ _ two_ne_zero, min_eq_left hlimit]
  rw [reach, hmin, covered_time, top, time]
  ring

theorem reach_strictMonoOn {limit slope : ℝ} (hlimit : 0 < limit) (hslope : 0 < slope) :
    StrictMonoOn (reach limit slope) (Set.Ioi 0) := by
  intro x hx y _ hxy
  have hquot : 0 < limit / slope := div_pos hlimit hslope
  have hrise : 0 < min (x / 2) (limit / slope) := lt_min (half_pos hx) hquot
  have hhalf := min_le_left (x / 2) (limit / slope)
  have hhalf' := min_le_left (y / 2) (limit / slope)
  have hmono : min (x / 2) (limit / slope) ≤ min (y / 2) (limit / slope) :=
    min_le_min_right _ (by linarith)
  rw [reach, reach, mul_assoc, mul_assoc]
  refine mul_lt_mul_of_pos_left ?_ hslope
  generalize min (x / 2) (limit / slope) = rise at *
  generalize min (y / 2) (limit / slope) = rise' at *
  calc rise * (x - rise) < rise * (y - rise) := mul_lt_mul_of_pos_left (by linarith) hrise
    _ ≤ rise' * (y - rise') := by
        have hgain : 0 ≤ (rise' - rise) * (y - rise' - rise) :=
          mul_nonneg (by linarith) (by linarith)
        linarith

theorem reach_pos {limit slope : ℝ} (hlimit : 0 < limit) (hslope : 0 < slope) (h : 0 < x) :
    0 < reach limit slope x := by
  have hhalf := min_le_left (x / 2) (limit / slope)
  exact mul_pos (mul_pos hslope (lt_min (half_pos h) (div_pos hlimit hslope))) (by linarith)

theorem lt_time_iff {limit : ℝ} (h : p.Fastest limit) (hx : 0 < x) :
    x < p.time ↔ reach limit p.slope x < p.covered p.time := by
  have hlimit : 0 < limit := p.top_pos.trans_le h.1
  rw [← p.reach_time h]
  exact ((reach_strictMonoOn hlimit p.slope_pos).lt_iff_lt hx p.time_pos).symm

theorem time_lt_iff {limit : ℝ} (h : p.Fastest limit) (hx : 0 < x) :
    p.time < x ↔ p.covered p.time < reach limit p.slope x := by
  have hlimit : 0 < limit := p.top_pos.trans_le h.1
  rw [← p.reach_time h]
  exact ((reach_strictMonoOn hlimit p.slope_pos).lt_iff_lt p.time_pos hx).symm

end Trapezoid
