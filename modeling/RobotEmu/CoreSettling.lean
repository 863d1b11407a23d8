import RobotEmu.CoreRates

/-! The approach to the target in exact arithmetic. Close to the target none of the clamps in `update` is
active: the velocity is the one the position error asks for, and each update takes the same share off the
error. The states from which this goes on for ever are those of the capture region. -/

namespace RobotEmu

open Arith

namespace Joint

variable {K : Type*} [Field K] [LinearOrder K]

/-- What is left of the way to the target. -/
def error (joint : Joint K) : K := joint.targetPosition - joint.state.position

/-- The error asks for a velocity within the limit, that velocity changes within the acceleration limit, and
the joint reaches it within one update over `t` seconds. -/
structure Captured (joint : Joint K) (t : K) : Prop where
  velocity : 8 * |joint.error| ≤ joint.limits.maxVelocity
  acceleration : 64 * |joint.error| ≤ joint.limits.maxAcceleration
  ramp : |8 * joint.error - joint.state.velocity| ≤ joint.limits.maxAcceleration * t

/-- The next update moves the joint within its position limits without clamping it. -/
def MovesFreely (joint : Joint K) (dt : Int) : Prop :=
  joint.update dt = joint.integrate (seconds dt) ∧ (joint.update dt).InLimits

/-- Proportional approach: the velocity is `8 * error`, and the position moves with it. -/
def approach (joint : Joint K) (t : K) : JointState K :=
  { joint.state with
    position := joint.state.position + 8 * joint.error * t
    velocity := 8 * joint.error
    acceleration := (8 * joint.error - joint.state.velocity) / t }

theorem error_approach (joint : Joint K) (t : K) :
    ({ joint with state := joint.approach t } : Joint K).error = (1 - 8 * t) * joint.error := by
  simp only [error, approach]
  ring

variable [IsStrictOrderedRing K] {joint : Joint K} {t : K}

theorem deltaVelocity_of_captured (h : joint.Captured t) :
    joint.deltaVelocity t = 8 * joint.error - joint.state.velocity := by
  have hdesired : joint.desiredVelocity = 8 * joint.error := by
    have hgain : (kPositionGain : K) = 8 := Int.cast_ofNat 8
    have hbound : |8 * joint.error| ≤ joint.limits.maxVelocity := by
      rw [abs_mul, abs_of_pos (by norm_num)]
      exact h.velocity
    rw [desiredVelocity, hgain]
    exact Ramp.stdClamp_of_abs_le hbound
  rw [deltaVelocity, hdesired]
  exact Ramp.stdClamp_of_abs_le h.ramp

/-- In the capture region no clamp of the velocity is active. -/
theorem integrate_of_captured (h : joint.Captured t) :
    joint.integrate t = { joint with state := joint.approach t } := by
  have hnext : joint.nextVelocity t = 8 * joint.error := by
    have hbound : |8 * joint.error| ≤ joint.limits.maxVelocity := by
      rw [abs_mul, abs_of_pos (by norm_num)]
      exact h.velocity
    rw [nextVelocity, deltaVelocity_of_captured h, add_sub_cancel]
    exact Ramp.stdClamp_of_abs_le hbound
  rw [integrate, deltaVelocity_of_captured h, hnext, approach]

/-- A move by a share of the error stays between the position and the target. -/
theorem inLimits_approach (h : joint.InLimits) (ht : 0 ≤ t) (ht' : 8 * t ≤ 1) :
    ({ joint with state := joint.approach t } : Joint K).InLimits := by
  obtain ⟨⟨hmin, hmax⟩, hmin', hmax'⟩ := h
  have hposition : (joint.approach t).position
      = (1 - 8 * t) * joint.state.position + 8 * t * joint.targetPosition := by
    simp only [error, approach]
    ring
  have hshare : 0 ≤ 1 - 8 * t := by linarith
  refine ⟨⟨?_, ?_⟩, hmin', hmax'⟩
  · calc joint.limits.minPosition
        = (1 - 8 * t) * joint.limits.minPosition + 8 * t * joint.limits.minPosition := by ring
      _ ≤ (joint.approach t).position := by
        rw [hposition]
        gcongr
  · calc (joint.approach t).position
        ≤ (1 - 8 * t) * joint.limits.maxPosition + 8 * t * joint.limits.maxPosition := by
          rw [hposition]
          gcongr
      _ = joint.limits.maxPosition := by ring

/-- The approach stays in the capture region. -/
theorem captured_approach (h : joint.Captured t) (ht : 0 ≤ t) (ht' : 8 * t ≤ 1) :
    ({ joint with state := joint.approach t } : Joint K).Captured t := by
  have hshrinks : |(1 - 8 * t) * joint.error| ≤ |joint.error| := by
    rw [abs_mul, abs_of_nonneg (by linarith)]
    exact mul_le_of_le_one_left (abs_nonneg _) (by linarith)
  refine ⟨?_, ?_, ?_⟩
  · rw [error_approach]
    exact (mul_le_mul_of_nonneg_left hshrinks (by norm_num)).trans h.velocity
  · rw [error_approach]
    exact (mul_le_mul_of_nonneg_left hshrinks (by norm_num)).trans h.acceleration
  · calc |8 * ({ joint with state := joint.approach t } : Joint K).error - (joint.approach t).velocity|
        = 64 * |joint.error| * t := by
          rw [error_approach, approach, show 8 * ((1 - 8 * t) * joint.error) - 8 * joint.error
            = -(64 * joint.error * t) by ring, abs_neg, abs_mul, abs_mul, abs_of_nonneg ht,
            abs_of_pos (show (0 : K) < 64 by norm_num)]
      _ ≤ joint.limits.maxAcceleration * t := mul_le_mul_of_nonneg_right h.acceleration ht

/-- The states of a joint on its approach. -/
structure Settling (joint : Joint K) (dt : Int) : Prop where
  enabled : joint.enabled = true
  faulted : joint.faulted = false
  inLimits : joint.InLimits
  captured : joint.Captured (seconds dt)

theorem seconds_le_eighth {dt : Int} (h : dt ≤ 125000000) : 8 * (seconds dt : K) ≤ 1 := by
  have hcast : (dt : K) ≤ 125000000 := by exact_mod_cast h
  rw [seconds_eq, mul_div_assoc', div_le_one (by norm_num)]
  linarith

/-- One update on the approach. -/
theorem Settling.update {dt : Int} (hpos : 0 < dt) (hle : dt ≤ 125000000) (h : joint.Settling dt) :
    joint.MovesFreely dt ∧ (joint.update dt).Settling dt ∧
      (joint.update dt).error = (1 - 8 * seconds dt) * joint.error := by
  have ht := (seconds_pos (K := K) hpos).le
  have ht' := seconds_le_eighth (K := K) hle
  have hlimits := inLimits_approach h.inLimits ht ht'
  have hupdate : joint.update dt = { joint with state := joint.approach (seconds dt) } := by
    rw [update_of_pos h.enabled h.faulted hpos, integrate_of_captured h.captured]
    exact clampToLimits_of_mem hlimits.1.1 hlimits.1.2
  rw [MovesFreely, hupdate]
  exact ⟨⟨(integrate_of_captured h.captured).symm, hlimits⟩,
    ⟨h.enabled, h.faulted, hlimits, captured_approach h.captured ht ht'⟩, error_approach joint _⟩

theorem Settling.iterate {dt : Int} (hpos : 0 < dt) (hle : dt ≤ 125000000) (h : joint.Settling dt) (n : ℕ) :
    ((·.update dt)^[n] joint).Settling dt ∧
      ((·.update dt)^[n] joint).error = (1 - 8 * seconds dt) ^ n * joint.error := by
  induction n with
  | zero =>
      rw [pow_zero, one_mul]
      exact ⟨h, rfl⟩
  | succ n ih =>
      obtain ⟨-, hsettling, herror⟩ := ih.1.update hpos hle
      rw [Function.iterate_succ_apply']
      refine ⟨hsettling, ?_⟩
      rw [herror, ih.2, pow_succ']
      ring

/-- **The joint settles.** From the capture region any number of updates over at most an eighth of a second
leaves the joint in it, no position is clamped, and the error is the same share of the last one each time:
it never changes sign and never grows. -/
theorem settles (joint : Joint K) (dt : Int) (hlimits : joint.InLimits) (henabled : joint.enabled = true)
    (hfaulted : joint.faulted = false) (hpos : 0 < dt) (hle : dt ≤ 125000000)
    (h : joint.Captured (seconds dt)) (n : ℕ) :
    let joint' := (·.update dt)^[n] joint
    joint'.Captured (seconds dt) ∧ joint'.MovesFreely dt ∧
      joint'.error = (1 - 8 * seconds dt) ^ n * joint.error ∧
      0 ≤ joint'.error * joint.error ∧ |(joint'.update dt).error| ≤ |joint'.error| := by
  intro joint'
  have hsettling : joint.Settling dt := ⟨henabled, hfaulted, hlimits, h⟩
  obtain ⟨hsettling', herror⟩ := hsettling.iterate hpos hle n
  obtain ⟨hfree, -, hnext⟩ := hsettling'.update hpos hle
  have hshare : 0 ≤ 1 - 8 * (seconds dt : K) := by
    have ht' := seconds_le_eighth (K := K) hle
    linarith
  refine ⟨hsettling'.captured, hfree, herror, ?_, ?_⟩
  · rw [herror, mul_assoc]
    exact mul_nonneg (pow_nonneg hshare n) (mul_self_nonneg _)
  · rw [hnext, abs_mul, abs_of_nonneg hshare]
    exact mul_le_of_le_one_left (abs_nonneg _) (by linarith [seconds_pos (K := K) hpos])

/-- A joint at rest, a twentieth away from its target. -/
def resting : Joint ℚ :=
  { Joint.ofLimits ⟨-1, 1, 2, 5⟩ with targetPosition := 1 / 20, enabled := true }

theorem settles_resting :
    let joint' := (·.update 100000000)^[3] resting
    joint'.Captured (seconds 100000000) ∧ joint'.MovesFreely 100000000 ∧
      joint'.error = (1 - 8 * seconds 100000000) ^ 3 * resting.error ∧
      0 ≤ joint'.error * resting.error ∧ |(joint'.update 100000000).error| ≤ |joint'.error| :=
  settles resting 100000000 ⟨by decide +kernel, by decide +kernel⟩ rfl rfl (by decide) (by decide)
    ⟨by decide +kernel, by decide +kernel, by decide +kernel⟩ 3

end Joint
end RobotEmu
