import RobotEmu.CoreJoint
import RobotEmu.Rounding
import RobotEmu.Trapezoid

/-! The planner of a motion from rest to rest: it accelerates, cruises and decelerates, or, where the way is too
short for the highest velocity, only accelerates and decelerates. In exact arithmetic every trajectory it
creates runs along a trapezoid of speed, the fastest that the limits allow. -/

namespace RobotEmu

open Arith Cmath

structure TrajectorySample (F : Type*) where
  position : F
  velocity : F
  acceleration : F

/-- Durations are in seconds, distances and the velocity reached are magnitudes; `sign` is the direction. -/
structure TrapezoidalTrajectory (F : Type*) where
  startPosition : F
  targetPosition : F
  sign : F
  maxAcceleration : F
  accelDurationS : F
  cruiseDurationS : F
  cruiseVelocity : F
  accelDistance : F

namespace TrapezoidalTrajectory

section Source

variable {F : Type*} [Arith F] [Cmath F]

/-- Both positions are within the limits. -/
def InRange (startPosition targetPosition : F) (limits : JointLimits F) : Prop :=
  ¬(startPosition < limits.minPosition ∨ startPosition > limits.maxPosition ∨
    targetPosition < limits.minPosition ∨ targetPosition > limits.maxPosition)

instance (startPosition targetPosition : F) (limits : JointLimits F) :
    Decidable (InRange startPosition targetPosition limits) :=
  inferInstanceAs (Decidable (¬_))

/-- `create` once its arguments are accepted. -/
def plan (startPosition targetPosition : F) (limits : JointLimits F) : TrapezoidalTrajectory F :=
  let distance := targetPosition - startPosition
  let absDistance := stdAbs distance
  let sign := if absDistance > ofInt 0 then (if distance > ofInt 0 then ofInt 1 else -ofInt 1) else ofInt 0
  let v := limits.maxVelocity
  let a := limits.maxAcceleration
  if StdEq absDistance (ofInt 0) then
    ⟨startPosition, targetPosition, sign, a, ofInt 0, ofInt 0, ofInt 0, ofInt 0⟩
  else
    let accelDistanceAtMaxV := v * v / (ofInt 2 * a)
    if ofInt 2 * accelDistanceAtMaxV ≤ absDistance then
      let accelDurationS := v / a
      let cruiseDistance := absDistance - ofInt 2 * accelDistanceAtMaxV
      let cruiseDurationS := cruiseDistance / v
      ⟨startPosition, targetPosition, sign, a, accelDurationS, cruiseDurationS, v, accelDistanceAtMaxV⟩
    else
      let peakVelocity := sqrt (absDistance * a)
      let accelDurationS := peakVelocity / a
      let accelDistance := ofInt 1 / ofInt 2 * a * accelDurationS * accelDurationS
      ⟨startPosition, targetPosition, sign, a, accelDurationS, ofInt 0, peakVelocity, accelDistance⟩

def create (startPosition targetPosition : F) (limits : JointLimits F) :
    Except JointError (TrapezoidalTrajectory F) :=
  match limits.validate with
  | .error e => .error e
  | .ok () =>
      if InRange startPosition targetPosition limits then .ok (plan startPosition targetPosition limits)
      else .error .positionOutOfRange

def totalDurationS (trajectory : TrapezoidalTrajectory F) : F :=
  ofInt 2 * trajectory.accelDurationS + trajectory.cruiseDurationS

/-- In whole nanoseconds. -/
def duration (trajectory : TrapezoidalTrajectory F) : Int :=
  Chrono.round (trajectory.totalDurationS * ofInt 1000000000)

/-- `1e-7`, a hundred nanoseconds. -/
def kEndpointEpsilonS : F := ofInt 1 / ofInt 10000000

/-- The three phases, at a time that is clamped and before the end. -/
def samplePhase (trajectory : TrapezoidalTrajectory F) (tau : F) : TrajectorySample F :=
  let a := trajectory.maxAcceleration
  if tau ≤ trajectory.accelDurationS then
    let vel := a * tau
    let pos := ofInt 1 / ofInt 2 * a * tau * tau
    ⟨trajectory.startPosition + trajectory.sign * pos, trajectory.sign * vel, trajectory.sign * a⟩
  else if tau ≤ trajectory.accelDurationS + trajectory.cruiseDurationS then
    let tIntoCruise := tau - trajectory.accelDurationS
    let pos := trajectory.accelDistance + trajectory.cruiseVelocity * tIntoCruise
    ⟨trajectory.startPosition + trajectory.sign * pos, trajectory.sign * trajectory.cruiseVelocity, ofInt 0⟩
  else
    let tIntoDec := tau - trajectory.accelDurationS - trajectory.cruiseDurationS
    let cruiseDistance := trajectory.cruiseVelocity * trajectory.cruiseDurationS
    let vel := trajectory.cruiseVelocity - a * tIntoDec
    let pos := trajectory.accelDistance + cruiseDistance + trajectory.cruiseVelocity * tIntoDec
      - ofInt 1 / ofInt 2 * a * tIntoDec * tIntoDec
    ⟨trajectory.startPosition + trajectory.sign * pos, trajectory.sign * vel, -trajectory.sign * a⟩

/-- `sample` at a time in seconds. -/
def sampleAt (trajectory : TrapezoidalTrajectory F) (seconds : F) : TrajectorySample F :=
  if StdEq trajectory.sign (ofInt 0) then ⟨trajectory.startPosition, ofInt 0, ofInt 0⟩
  else
    let tau := stdClamp seconds (ofInt 0) trajectory.totalDurationS
    if tau ≥ trajectory.totalDurationS - kEndpointEpsilonS then ⟨trajectory.targetPosition, ofInt 0, ofInt 0⟩
    else trajectory.samplePhase tau

/-- `sample` at a time in nanoseconds. -/
def sample (trajectory : TrapezoidalTrajectory F) (t : Int) : TrajectorySample F :=
  trajectory.sampleAt (Joint.seconds t)

theorem create_eq_ok_iff {startPosition targetPosition : F} {limits : JointLimits F}
    {trajectory : TrapezoidalTrajectory F} :
    create startPosition targetPosition limits = .ok trajectory ↔
      limits.validate = .ok () ∧ InRange startPosition targetPosition limits ∧
        plan startPosition targetPosition limits = trajectory := by
  rw [create]
  cases hvalid : limits.validate with
  | error e => simp
  | ok =>
      split_ifs with hrange
      · simp [hrange]
      · simp [hrange]

end Source

/-! ### Along a trapezoid of speed -/

section Exact

noncomputable section

/-- The trajectory from `start` that runs along the motion `p` in the direction of `sign`. -/
def along (p : Trapezoid) (start sign : ℝ) : TrapezoidalTrajectory ℝ where
  startPosition := start
  targetPosition := start + sign * p.covered p.time
  sign := sign
  maxAcceleration := p.slope
  accelDurationS := p.rise
  cruiseDurationS := p.flat
  cruiseVelocity := p.top
  accelDistance := p.covered p.rise

end

theorem totalDurationS_along (p : Trapezoid) (start sign : ℝ) :
    (along p start sign).totalDurationS = p.time := by
  have htwo : (ofInt 2 : ℝ) = 2 := Int.cast_ofNat 2
  rw [totalDurationS, htwo, Trapezoid.time]
  rfl

/-- The motion `p` in the direction of `sign` leads from `start` to `target`, as fast as the limits allow. -/
structure Leads (start target : ℝ) (limits : JointLimits ℝ) (p : Trapezoid) (sign : ℝ) : Prop where
  sign_eq : sign = 1 ∨ sign = -1
  arrives : start + sign * p.covered p.time = target
  slope_eq : p.slope = limits.maxAcceleration
  fastest : p.Fastest limits.maxVelocity

theorem abs_sign {sign : ℝ} (h : sign = 1 ∨ sign = -1) : |sign| = 1 := by
  rcases h with rfl | rfl
  · exact abs_one
  · rw [abs_neg, abs_one]

theorem sign_ne_zero {sign : ℝ} (h : sign = 1 ∨ sign = -1) : sign ≠ 0 := by
  rw [← abs_ne_zero, abs_sign h]
  exact one_ne_zero

theorem Leads.covered {start target sign : ℝ} {limits : JointLimits ℝ} {p : Trapezoid}
    (h : Leads start target limits p sign) : p.covered p.time = |target - start| := by
  rw [← h.arrives, add_sub_cancel_left, abs_mul, abs_sign h.sign_eq, one_mul, abs_of_pos p.covered_time_pos]

theorem sign_mul_abs {x : ℝ} (h : x ≠ 0) : ∃ sign : ℝ, (sign = 1 ∨ sign = -1) ∧
    (if |x| > 0 then (if x > 0 then 1 else -1) else 0) = sign ∧ sign * |x| = x := by
  rw [if_pos (abs_pos.2 h)]
  rcases lt_or_gt_of_ne h with hneg | hpos
  · refine ⟨-1, .inr rfl, if_neg (not_lt.2 hneg.le), ?_⟩
    rw [abs_of_neg hneg, neg_one_mul, neg_neg]
  · refine ⟨1, .inl rfl, if_pos hpos, ?_⟩
    rw [abs_of_pos hpos, one_mul]

/-- A way that is long enough for the highest velocity. -/
theorem cruise_covers {v a way : ℝ} (hv : 0 < v) (ha : 0 < a) (h : 2 * (v * v / (2 * a)) ≤ way) :
    ∃ p : Trapezoid, p.slope = a ∧ p.rise = v / a ∧ p.flat = (way - 2 * (v * v / (2 * a))) / v ∧
      p.top = v ∧ p.covered p.time = way := by
  refine ⟨⟨a, v / a, (way - 2 * (v * v / (2 * a))) / v, ha, div_pos hv ha,
    div_nonneg (sub_nonneg.2 h) hv.le⟩, rfl, rfl, rfl, mul_div_cancel₀ _ ha.ne', ?_⟩
  rw [Trapezoid.covered_time, Trapezoid.top]
  field_simp
  ring

/-- A way on which the highest velocity is not reached. -/
theorem peak_covers {v a way : ℝ} (hv : 0 < v) (ha : 0 < a) (hway : 0 < way)
    (h : way < 2 * (v * v / (2 * a))) :
    ∃ p : Trapezoid, p.slope = a ∧ p.rise = √(way * a) / a ∧ p.flat = 0 ∧
      p.top = √(way * a) ∧ p.top ≤ v ∧ p.covered p.time = way := by
  have hprod : 0 < way * a := mul_pos hway ha
  have htop : a * (√(way * a) / a) = √(way * a) := mul_div_cancel₀ _ ha.ne'
  have hle : √(way * a) ≤ v := by
    rw [Real.sqrt_le_left hv.le, ← le_div_iff₀ ha]
    calc way ≤ 2 * (v * v / (2 * a)) := h.le
      _ = v ^ 2 / a := by
        field_simp
  refine ⟨⟨a, √(way * a) / a, 0, ha, div_pos (Real.sqrt_pos.2 hprod) ha, le_refl 0⟩, rfl, rfl, rfl, htop,
    htop.le.trans hle, ?_⟩
  rw [Trapezoid.covered_time, Trapezoid.top, htop, add_zero, mul_div_assoc', Real.mul_self_sqrt hprod.le,
    mul_div_cancel_right₀ _ ha.ne']

theorem plan_eq_along {start target : ℝ} {limits : JointLimits ℝ} (hv : 0 < limits.maxVelocity)
    (ha : 0 < limits.maxAcceleration) (hne : start ≠ target) :
    ∃ p sign, Leads start target limits p sign ∧ plan start target limits = along p start sign := by
  have hdistance : target - start ≠ 0 := sub_ne_zero.2 hne.symm
  have habs : |target - start| ≠ 0 := abs_ne_zero.2 hdistance
  have hsqrt : ∀ x : ℝ, sqrt x = √x := fun _ => rfl
  obtain ⟨sign, hsign, hif, hmul⟩ := sign_mul_abs hdistance
  have harrives : start + sign * |target - start| = target := by
    rw [hmul, add_sub_cancel]
  rw [plan]
  simp only [stdEq_iff, stdAbs_eq, ofInt_eq, hsqrt, Int.cast_zero, Int.cast_one, Int.cast_ofNat, hif]
  rw [if_neg habs]
  split_ifs with hlong
  · obtain ⟨p, hslope, hrise, hflat, htop, hcovered⟩ := cruise_covers hv ha hlong
    refine ⟨p, sign, ⟨hsign, by rw [hcovered, harrives], hslope, htop.le, .inl htop⟩, ?_⟩
    rw [along, hcovered, harrives, p.covered_of_rise p.rise_pos.le (le_refl _), hslope, hrise, hflat, htop]
    congr 1
    field_simp
  · obtain ⟨p, hslope, hrise, hflat, htop, hle, hcovered⟩ :=
      peak_covers hv ha (abs_pos.2 hdistance) (not_le.1 hlong)
    refine ⟨p, sign, ⟨hsign, by rw [hcovered, harrives], hslope, hle, .inr hflat⟩, ?_⟩
    rw [along, hcovered, harrives, p.covered_of_rise p.rise_pos.le (le_refl _), hslope, hrise, hflat, htop]
    congr 1
    ring

/-- The trajectory of no motion at all. -/
noncomputable def resting (start a : ℝ) : TrapezoidalTrajectory ℝ := ⟨start, start, 0, a, 0, 0, 0, 0⟩

theorem plan_self (start : ℝ) (limits : JointLimits ℝ) :
    plan start start limits = resting start limits.maxAcceleration := by
  rw [plan]
  simp only [stdEq_iff, stdAbs_eq, ofInt_zero, sub_self, abs_zero, if_true, gt_iff_lt, lt_irrefl, if_false]
  rfl

theorem cases_of_create {start target : ℝ} {limits : JointLimits ℝ} {trajectory : TrapezoidalTrajectory ℝ}
    (h : create start target limits = .ok trajectory) :
    start = target ∧ trajectory = resting start limits.maxAcceleration ∨
      ∃ p sign, Leads start target limits p sign ∧ trajectory = along p start sign := by
  obtain ⟨hvalid, -, rfl⟩ := create_eq_ok_iff.1 h
  obtain ⟨hv, ha⟩ := JointLimits.pos_of_validate hvalid
  by_cases heq : start = target
  · subst heq
    exact .inl ⟨rfl, plan_self start limits⟩
  · exact .inr (plan_eq_along hv ha heq)

theorem create_of_mem {start target : ℝ} {limits : JointLimits ℝ}
    (h : limits.minPosition < limits.maxPosition) (hv : 0 < limits.maxVelocity)
    (ha : 0 < limits.maxAcceleration) (hstart : start ∈ Set.Icc limits.minPosition limits.maxPosition)
    (htarget : target ∈ Set.Icc limits.minPosition limits.maxPosition) :
    create start target limits = .ok (plan start target limits) := by
  refine create_eq_ok_iff.2 ⟨JointLimits.validate_eq_ok_iff.2 ⟨not_le.2 h, ?_, ?_⟩, ?_, rfl⟩
  · rw [ofInt_zero]
    exact not_le.2 hv
  · rw [ofInt_zero]
    exact not_le.2 ha
  · rintro (hlt | hlt | hlt | hlt)
    · exact absurd hstart.1 (not_le.2 hlt)
    · exact absurd hstart.2 (not_le.2 hlt)
    · exact absurd htarget.1 (not_le.2 hlt)
    · exact absurd htarget.2 (not_le.2 hlt)

/-! ### How long a trajectory takes -/

section Duration

variable {start target x : ℝ} {limits : JointLimits ℝ} {trajectory : TrapezoidalTrajectory ℝ}

theorem totalDurationS_resting (start a : ℝ) : (resting start a).totalDurationS = 0 := by
  rw [totalDurationS, resting, mul_zero, add_zero]

/-- A trajectory takes longer if the limits allow less than its way in the time. -/
theorem lt_totalDurationS_iff (h : create start target limits = .ok trajectory) (hx : 0 < x) :
    x < trajectory.totalDurationS ↔
      Trapezoid.reach limits.maxVelocity limits.maxAcceleration x < |target - start| := by
  obtain ⟨hv, ha⟩ := JointLimits.pos_of_validate (create_eq_ok_iff.1 h).1
  rcases cases_of_create h with ⟨rfl, rfl⟩ | ⟨p, sign, hleads, rfl⟩
  · rw [totalDurationS_resting, sub_self, abs_zero]
    exact iff_of_false (not_lt.2 hx.le) (not_lt.2 (Trapezoid.reach_pos hv ha hx).le)
  · rw [totalDurationS_along, ← hleads.covered, ← hleads.slope_eq]
    exact p.lt_time_iff hleads.fastest hx

theorem totalDurationS_lt_iff (h : create start target limits = .ok trajectory) (hx : 0 < x) :
    trajectory.totalDurationS < x ↔
      |target - start| < Trapezoid.reach limits.maxVelocity limits.maxAcceleration x := by
  obtain ⟨hv, ha⟩ := JointLimits.pos_of_validate (create_eq_ok_iff.1 h).1
  rcases cases_of_create h with ⟨rfl, rfl⟩ | ⟨p, sign, hleads, rfl⟩
  · rw [totalDurationS_resting, sub_self, abs_zero]
    exact iff_of_true hx (Trapezoid.reach_pos hv ha hx)
  · rw [totalDurationS_along, ← hleads.covered, ← hleads.slope_eq]
    exact p.time_lt_iff hleads.fastest hx

end Duration

/-! ### Sampling along a trapezoid -/

/-- What is sampled at rest. -/
theorem sampleAt_resting (start a seconds : ℝ) : (resting start a).sampleAt seconds = ⟨start, 0, 0⟩ := by
  have hsign : StdEq (resting start a).sign 0 := stdEq_iff.2 rfl
  rw [sampleAt, ofInt_zero, if_pos hsign]
  rfl

theorem kEndpointEpsilonS_eq : (kEndpointEpsilonS : ℝ) = 1 / 10000000 := by
  rw [kEndpointEpsilonS, ofInt_eq, ofInt_eq]
  norm_num

theorem kEndpointEpsilonS_pos : (0 : ℝ) < kEndpointEpsilonS := by
  rw [kEndpointEpsilonS_eq]
  norm_num

/-- The time on the motion, from its start to its end. -/
noncomputable def clock (p : Trapezoid) (seconds : ℝ) : ℝ := max 0 (min seconds p.time)

variable {p : Trapezoid} {start target sign x : ℝ} {limits : JointLimits ℝ}

theorem clock_mem (p : Trapezoid) (seconds : ℝ) : 0 ≤ clock p seconds ∧ clock p seconds ≤ p.time :=
  ⟨le_max_left _ _, max_le p.time_pos.le (min_le_right _ _)⟩

theorem clock_of_mem (h : 0 ≤ x) (h' : x ≤ p.time) : clock p x = x := by
  rw [clock, min_eq_left h', max_eq_right h]

theorem clock_mono {y : ℝ} (h : x ≤ y) : clock p x ≤ clock p y :=
  max_le_max_left _ (min_le_min_right _ h)

theorem sampleAt_along (hsign : sign ≠ 0) (seconds : ℝ) :
    (along p start sign).sampleAt seconds =
      if p.time - kEndpointEpsilonS ≤ clock p seconds then ⟨start + sign * p.covered p.time, 0, 0⟩
      else (along p start sign).samplePhase (clock p seconds) := by
  have hne : ¬StdEq (along p start sign).sign 0 := fun heq => hsign (stdEq_iff.1 heq)
  rw [sampleAt, totalDurationS_along, ofInt_zero, if_neg hne, stdClamp_eq_max_min p.time_pos.le]
  rfl

/-- Each phase samples the way covered and the speed. -/
theorem samplePhase_along (start sign : ℝ) (h : 0 ≤ x) (h' : x ≤ p.time) :
    ((along p start sign).samplePhase x).position = start + sign * p.covered x ∧
      ((along p start sign).samplePhase x).velocity = sign * p.speed x ∧
      |((along p start sign).samplePhase x).acceleration| ≤ |sign| * p.slope := by
  have hslope := p.slope_pos
  have hway := p.covered_of_rise p.rise_pos.le (le_refl _)
  simp only [samplePhase, along, ofInt_eq, Int.cast_zero, Int.cast_one, Int.cast_ofNat]
  split_ifs with hrise hflat
  · rw [p.covered_of_rise h hrise, p.speed_of_rise h hrise, abs_mul, abs_of_pos hslope]
    exact ⟨by ring, rfl, le_refl _⟩
  · have hle := (not_le.1 hrise).le
    rw [hway, p.covered_of_flat hle hflat, p.speed_of_flat hle hflat, abs_zero]
    exact ⟨rfl, rfl, mul_nonneg (abs_nonneg _) hslope.le⟩
  · have hle := (not_le.1 hflat).le
    rw [hway, p.covered_of_fall hle h', p.speed_of_fall hle h', abs_mul, abs_neg, abs_of_pos hslope]
    refine ⟨by ring, ?_, le_refl _⟩
    rw [Trapezoid.top, Trapezoid.time]
    ring

end Exact

end TrapezoidalTrajectory
end RobotEmu
