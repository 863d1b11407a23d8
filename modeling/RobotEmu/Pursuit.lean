import RobotEmu.Ramp

/-! Pursuit of a fixed point in exact arithmetic. The distance to the point asks for a velocity, up to a bound;
the velocity is ramped towards it, and the distance changes by what the new velocity covers. Twice the energy
of the motion, with the distance as its potential, is lowered by every step until no clamp is active any more. -/

namespace Pursuit

open Arith

section
variable {K : Type*} [Field K] [LinearOrder K]

/-- The velocity that the distance asks for. -/
def setpoint (gain bound e : K) : K := stdClamp (gain * e) (-bound) bound

/-- The velocity after a step over a time `t`. -/
def ramped (gain bound rate t e v : K) : K :=
  v + stdClamp (setpoint gain bound e - v) (-(rate * t)) (rate * t)

/-- Twice the energy of a motion at velocity `v`, with `e` to go and braking at the given rate. -/
def energy (rate e v : K) : K := v * v + (rate + rate) * |e|

/-- No clamp is active, in this step and in those after it. -/
structure Captured (gain bound rate t e v : K) : Prop where
  velocity : gain * |e| ≤ bound
  acceleration : gain * gain * |e| ≤ rate
  ramp : |gain * e - v| ≤ rate * t

/-- What a step outside of the capture region takes off the energy. -/
def quantum (bound rate t : K) : K := rate * t * min (rate * t) bound

end

section
variable {K : Type*} [Field K] [LinearOrder K] {gain bound rate t e v : K}

theorem energy_neg : energy rate (-e) (-v) = energy rate e v := by
  rw [energy, neg_mul_neg, abs_neg, energy]

end

variable {K : Type*} [Field K] [LinearOrder K] [IsStrictOrderedRing K] {gain bound rate t e v w : K}

/-- A clamp to symmetric bounds is odd. -/
theorem stdClamp_neg (x : K) (h : 0 ≤ bound) : stdClamp (-x) (-bound) bound = -stdClamp x (-bound) bound := by
  rw [stdClamp_eq_max_min (neg_le_self h), stdClamp_eq_max_min (neg_le_self h), ← min_neg_neg, neg_neg,
    min_comm, ← max_neg_neg, max_min_distrib_left, max_eq_right (neg_le_self h), max_comm]

theorem setpoint_neg (h : 0 ≤ bound) : setpoint gain bound (-e) = -setpoint gain bound e := by
  rw [setpoint, mul_neg, stdClamp_neg _ h, setpoint]

theorem ramped_neg (hbound : 0 ≤ bound) (hrate : 0 ≤ rate * t) :
    ramped gain bound rate t (-e) (-v) = -ramped gain bound rate t e v := by
  rw [ramped, setpoint_neg hbound, ← neg_sub', stdClamp_neg _ hrate, ← neg_add, ramped]

theorem abs_setpoint (hgain : 0 ≤ gain) (hbound : 0 ≤ bound) :
    |setpoint gain bound e| = min (gain * |e|) bound := by
  have hsplit : ∀ x : K, 0 ≤ x → |setpoint gain bound x| = min (gain * |x|) bound := by
    intro x hx
    have hnonneg : 0 ≤ min (gain * x) bound := le_min (mul_nonneg hgain hx) hbound
    rw [setpoint, stdClamp_eq_max_min (neg_le_self hbound), max_eq_right (by linarith), abs_of_nonneg hnonneg,
      abs_of_nonneg hx]
  rcases le_total 0 e with hpos | hneg
  · exact hsplit e hpos
  · rw [← abs_neg, ← setpoint_neg hbound, hsplit (-e) (neg_nonneg.2 hneg), abs_neg]

/-- A velocity that is asked for forwards is asked for by a distance ahead, and no faster than it covers it. -/
theorem setpoint_le_of_pos (hbound : 0 ≤ bound) (h : 0 < setpoint gain bound e) :
    setpoint gain bound e ≤ gain * e := by
  unfold setpoint stdClamp at h ⊢
  split_ifs at h ⊢ with hlo hhi
  · exact absurd h (not_lt.2 (neg_nonpos.2 hbound))
  · exact hhi.le
  · exact le_refl _

/-- Moving ahead no faster than is asked for never passes the point; moving away costs what it covers. -/
theorem abs_sub_le (ht : 0 ≤ t) (hgt : gain * t ≤ 1) (hgain : 0 < gain) (hbound : 0 ≤ bound)
    (h : w ≤ setpoint gain bound e) : |e - w * t| ≤ |e| - w * t := by
  rcases le_or_gt w 0 with hback | hahead
  · have hcost : |w * t| = -(w * t) := abs_of_nonpos (mul_nonpos_of_nonpos_of_nonneg hback ht)
    calc |e - w * t| ≤ |e| + |w * t| := abs_sub e (w * t)
      _ = |e| - w * t := by rw [hcost, sub_eq_add_neg]
  · have hasked := setpoint_le_of_pos hbound (hahead.trans_le h)
    have he : 0 < e := by
      have hprod : 0 < gain * e := hahead.trans_le (h.trans hasked)
      exact (mul_pos_iff_of_pos_left hgain).1 hprod
    have hcovers : w * t ≤ e := by
      calc w * t ≤ gain * e * t := mul_le_mul_of_nonneg_right (h.trans hasked) ht
        _ = gain * t * e := by ring
        _ ≤ e := mul_le_of_le_one_left he.le hgt
    rw [abs_of_pos he, abs_of_nonneg (sub_nonneg.2 hcovers)]

/-- A step of full acceleration, with the velocity asked for still ahead. -/
theorem energy_push (hrate : 0 ≤ rate) (ht : 0 ≤ t) (hgt : gain * t ≤ 1) (hgain : 0 < gain) (hbound : 0 ≤ bound)
    (h : v + rate * t ≤ setpoint gain bound e) :
    energy rate (e - (v + rate * t) * t) (v + rate * t) + rate * t * (rate * t) ≤ energy rate e v := by
  have hdistance := abs_sub_le ht hgt hgain hbound h
  have hpotential : (rate + rate) * |e - (v + rate * t) * t| ≤ (rate + rate) * (|e| - (v + rate * t) * t) :=
    mul_le_mul_of_nonneg_left hdistance (by linarith)
  unfold energy
  linarith

/-- Reaching the velocity asked for covers what it is worth of the distance. -/
theorem abs_sub_setpoint_le (ht : 0 ≤ t) (hgt : gain * t ≤ 1) (hgain : 0 < gain) (hbound : 0 ≤ bound) :
    |e - setpoint gain bound e * t| ≤ |e| - |setpoint gain bound e| * t := by
  have hahead := abs_sub_le (e := e) ht hgt hgain hbound (le_refl (setpoint gain bound e))
  have hback := abs_sub_le (e := -e) ht hgt hgain hbound (le_refl (setpoint gain bound (-e)))
  rw [setpoint_neg hbound, neg_mul, ← neg_sub', abs_neg, abs_neg] at hback
  rcases abs_cases (setpoint gain bound e) with ⟨heq, -⟩ | ⟨heq, -⟩
  · rw [heq]
    exact hahead
  · rw [heq, neg_mul]
    exact hback

/-- A step that reaches the velocity asked for. -/
theorem energy_track (hrate : 0 ≤ rate) (ht : 0 ≤ t) (hgt : gain * t ≤ 1) (hgain : 0 < gain) (hbound : 0 ≤ bound)
    (h : |setpoint gain bound e - v| ≤ rate * t) :
    energy rate (e - setpoint gain bound e * t) (setpoint gain bound e) +
      rate * t * min (rate * t) |setpoint gain bound e| ≤ energy rate e v := by
  have hdistance := abs_sub_setpoint_le (e := e) ht hgt hgain hbound
  have hpotential : (rate + rate) * |e - setpoint gain bound e * t|
      ≤ (rate + rate) * (|e| - |setpoint gain bound e| * t) := mul_le_mul_of_nonneg_left hdistance (by linarith)
  have hspeed : |setpoint gain bound e| - |v| ≤ rate * t := (abs_sub_abs_le_abs_sub _ _).trans h
  have hchange : 0 ≤ rate * t := mul_nonneg hrate ht
  have hkinetic : |setpoint gain bound e| * |setpoint gain bound e| - 2 * (rate * t) * |setpoint gain bound e|
      + rate * t * min (rate * t) |setpoint gain bound e| ≤ |v| * |v| := by
    have hasked := abs_nonneg (setpoint gain bound e)
    rcases le_total (rate * t) |setpoint gain bound e| with hle | hle
    · -- the ramp leaves some of the speed asked for, and that much the motion has had before
      rw [min_eq_left hle]
      have hhad := mul_self_le_mul_self (sub_nonneg.2 hle) (show _ ≤ |v| by linarith)
      linarith
    · rw [min_eq_right hle]
      have hless := mul_nonneg hasked (sub_nonneg.2 hle)
      linarith [mul_self_nonneg |v|]
  unfold energy
  rw [abs_mul_abs_self, abs_mul_abs_self] at hkinetic
  linarith

/-- Outside of the capture region a velocity that is reached is not small. -/
theorem min_le_setpoint (hrate : 0 ≤ rate) (hgt : gain * t ≤ 1) (hgain : 0 < gain) (hbound : 0 ≤ bound)
    (h : |setpoint gain bound e - v| ≤ rate * t) (hcaptured : ¬Captured gain bound rate t e v) :
    min (rate * t) bound ≤ |setpoint gain bound e| := by
  rw [abs_setpoint hgain.le hbound]
  rcases le_total bound (gain * |e|) with hfar | hnear
  · rw [min_eq_right hfar]
    exact min_le_right _ _
  · rw [min_eq_left hnear]
    refine (min_le_left _ _).trans ?_
    -- nothing but the acceleration keeps the motion from being captured
    have hfast : rate < gain * gain * |e| := by
      rw [← not_le]
      intro hslow
      refine hcaptured ⟨hnear, hslow, ?_⟩
      rwa [setpoint, Ramp.stdClamp_of_abs_le (by rwa [abs_mul, abs_of_pos hgain])] at h
    refine le_of_mul_le_mul_left ?_ hgain
    calc gain * (rate * t) = rate * (gain * t) := by ring
      _ ≤ rate := mul_le_of_le_one_right hrate hgt
      _ ≤ gain * (gain * |e|) := by
        rw [← mul_assoc]
        exact hfast.le

/-- **One step** outside of the capture region lowers the energy by its quantum. -/
theorem energy_step (hrate : 0 ≤ rate) (ht : 0 ≤ t) (hgt : gain * t ≤ 1) (hgain : 0 < gain) (hbound : 0 ≤ bound)
    (hcaptured : ¬Captured gain bound rate t e v) :
    energy rate (e - ramped gain bound rate t e v * t) (ramped gain bound rate t e v) +
      quantum bound rate t ≤ energy rate e v := by
  have hchange : 0 ≤ rate * t := mul_nonneg hrate ht
  have hquantum : quantum bound rate t ≤ rate * t * (rate * t) :=
    mul_le_mul_of_nonneg_left (min_le_left _ _) hchange
  have hpush : ∀ e v : K, rate * t < setpoint gain bound e - v →
      energy rate (e - ramped gain bound rate t e v * t) (ramped gain bound rate t e v) +
        quantum bound rate t ≤ energy rate e v := by
    intro e v hfar
    have hramped : ramped gain bound rate t e v = v + rate * t := by
      rw [ramped, stdClamp, if_neg (not_lt.2 (by linarith)), if_pos hfar]
    rw [hramped]
    have hstep := energy_push (e := e) (v := v) hrate ht hgt hgain hbound (by linarith)
    linarith
  rcases le_or_gt |setpoint gain bound e - v| (rate * t) with hnear | hfar
  · have hramped : ramped gain bound rate t e v = setpoint gain bound e := by
      rw [ramped, Ramp.stdClamp_of_abs_le hnear, add_sub_cancel]
    rw [hramped]
    have hasked := min_le_setpoint hrate hgt hgain hbound hnear hcaptured
    have hstep := energy_track hrate ht hgt hgain hbound hnear
    have hless : quantum bound rate t ≤ rate * t * min (rate * t) |setpoint gain bound e| :=
      mul_le_mul_of_nonneg_left (le_min (min_le_left _ _) hasked) hchange
    linarith
  · rcases lt_abs.1 hfar with hup | hdown
    · exact hpush e v hup
    · -- downwards is upwards in the mirror
      have hmirror := hpush (-e) (-v) (by rw [setpoint_neg hbound]; linarith)
      rwa [ramped_neg hbound hchange, neg_mul, ← neg_sub', energy_neg, energy_neg] at hmirror

/-- No step raises it. -/
theorem energy_step_le (hrate : 0 ≤ rate) (ht : 0 ≤ t) (hgt : gain * t ≤ 1) (hgain : 0 < gain)
    (hbound : 0 ≤ bound) :
    energy rate (e - ramped gain bound rate t e v * t) (ramped gain bound rate t e v) ≤ energy rate e v := by
  have hchange : 0 ≤ rate * t := mul_nonneg hrate ht
  by_cases hcaptured : Captured gain bound rate t e v
  · have hasked : setpoint gain bound e = gain * e := by
      rw [setpoint, Ramp.stdClamp_of_abs_le]
      rw [abs_mul, abs_of_pos hgain]
      exact hcaptured.velocity
    have hnear : |setpoint gain bound e - v| ≤ rate * t := by
      rw [hasked]
      exact hcaptured.ramp
    have hstep := energy_track hrate ht hgt hgain hbound hnear
    have hloss : 0 ≤ rate * t * min (rate * t) |setpoint gain bound e| :=
      mul_nonneg hchange (le_min hchange (abs_nonneg _))
    rw [ramped, Ramp.stdClamp_of_abs_le hnear, add_sub_cancel]
    linarith
  · have hstep := energy_step hrate ht hgt hgain hbound hcaptured
    have hquantum : 0 ≤ quantum bound rate t := mul_nonneg hchange (le_min hchange hbound)
    linarith

/-! ### How often a measure can be lowered -/

/-- A measure that is never negative and that every step outside of `p` lowers by `c` leads into `p` before the
steps have taken off more than there was. -/
theorem exists_of_descent {σ : Type*} {f : σ → σ} {I p : σ → Prop} {w : σ → K} {c : K}
    (hinv : ∀ s, I s → I (f s)) (hnonneg : ∀ s, I s → 0 ≤ w s)
    (hstep : ∀ s, I s → ¬p s → w (f s) + c ≤ w s) {s : σ} (hs : I s) (n : ℕ) (hn : w s < n * c) :
    ∃ k < n, p (f^[k] s) := by
  induction n generalizing s with
  | zero =>
      rw [Nat.cast_zero, zero_mul] at hn
      exact absurd (hnonneg s hs) (not_le.2 hn)
  | succ n ih =>
      by_cases hp : p s
      · exact ⟨0, Nat.succ_pos n, hp⟩
      · have hless : w (f s) < n * c := by
          have hone := hstep s hs hp
          rw [Nat.cast_succ, add_mul, one_mul] at hn
          linarith
        obtain ⟨k, hk, hpk⟩ := ih (hinv s hs) hless
        exact ⟨k + 1, Nat.succ_lt_succ hk, hpk⟩

end Pursuit
