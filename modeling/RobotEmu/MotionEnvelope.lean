import RobotEmu.MotionTrajectory

/-! What a trajectory promises between its ends, in exact arithmetic: it stays between start and target and only
goes on towards the target, within the limits, and its phases join without a jump. The hundred nanoseconds
before the end are skipped, which moves the joint forward. -/

namespace RobotEmu.TrapezoidalTrajectory

open Arith

/-- The position is on the way, the velocity does not point back, and the limits are kept. -/
structure Within (start target : ℝ) (limits : JointLimits ℝ) (sample : TrajectorySample ℝ) : Prop where
  position : sample.position ∈ Set.uIcc start target
  towards : sample.velocity = 0 ∨ 0 < sample.velocity * (target - start)
  velocity : |sample.velocity| ≤ limits.maxVelocity
  acceleration : |sample.acceleration| ≤ limits.maxAcceleration

/-- Two samples of a motion, the second of which is at least as far along. -/
structure Envelope (start target : ℝ) (limits : JointLimits ℝ) (earlier later : TrajectorySample ℝ) : Prop where
  within : Within start target limits earlier
  within' : Within start target limits later
  onward : |earlier.position - start| ≤ |later.position - start|

section Along

variable (p : Trapezoid) {start target sign x y : ℝ} {limits : JointLimits ℝ}

noncomputable section

/-- The way that is sampled. -/
def wayAt (x : ℝ) : ℝ :=
  if p.time - kEndpointEpsilonS ≤ clock p x then p.covered p.time else p.covered (clock p x)

/-- The speed that is sampled. -/
def speedAt (x : ℝ) : ℝ :=
  if p.time - kEndpointEpsilonS ≤ clock p x then 0 else p.speed (clock p x)

end

variable {p}

theorem wayAt_mem (p : Trapezoid) (x : ℝ) : 0 ≤ wayAt p x ∧ wayAt p x ≤ p.covered p.time := by
  rw [wayAt]
  split_ifs
  · exact p.covered_mem p.time_pos.le (le_refl _)
  · exact p.covered_mem (clock_mem p x).1 (clock_mem p x).2

/-- The end is skipped forward. -/
theorem wayAt_mono (h : x ≤ y) : wayAt p x ≤ wayAt p y := by
  have hclock : clock p x ≤ clock p y := clock_mono h
  rw [wayAt, wayAt]
  split_ifs with hx hy
  · exact le_refl _
  · exact absurd (hx.trans hclock) hy
  · exact p.covered_mono (clock_mem p x).2
  · exact p.covered_mono hclock

theorem speedAt_mem (p : Trapezoid) (x : ℝ) : 0 ≤ speedAt p x ∧ speedAt p x ≤ p.top := by
  rw [speedAt]
  split_ifs
  · exact ⟨le_refl _, p.top_pos.le⟩
  · exact ⟨p.speed_nonneg _, p.speed_le_top _⟩

theorem sampleAt_eq (p : Trapezoid) (start : ℝ) (hsign : sign = 1 ∨ sign = -1) (x : ℝ) :
    ((along p start sign).sampleAt x).position = start + sign * wayAt p x ∧
      ((along p start sign).sampleAt x).velocity = sign * speedAt p x ∧
      |((along p start sign).sampleAt x).acceleration| ≤ p.slope := by
  rw [sampleAt_along (sign_ne_zero hsign), wayAt, speedAt]
  split_ifs
  · refine ⟨rfl, (mul_zero sign).symm, ?_⟩
    rw [abs_zero]
    exact p.slope_pos.le
  · have hphase := samplePhase_along start sign (clock_mem p x).1 (clock_mem p x).2
    rw [abs_sign hsign, one_mul] at hphase
    exact hphase

theorem within_sampleAt (h : Leads start target limits p sign) (x : ℝ) :
    Within start target limits ((along p start sign).sampleAt x) := by
  obtain ⟨hposition, hvelocity, hacceleration⟩ := sampleAt_eq p start h.sign_eq x
  obtain ⟨hway, hway'⟩ := wayAt_mem p x
  obtain ⟨hspeed, hspeed'⟩ := speedAt_mem p x
  have hcovered := p.covered_time_pos
  refine ⟨?_, ?_, ?_, hacceleration.trans h.slope_eq.le⟩
  · rw [hposition, ← h.arrives, Set.mem_uIcc]
    rcases h.sign_eq with rfl | rfl
    · exact .inl ⟨by linarith, by linarith⟩
    · exact .inr ⟨by linarith, by linarith⟩
  · rw [hvelocity, ← h.arrives, add_sub_cancel_left]
    rcases hspeed.eq_or_lt with hzero | hpos
    · left
      rw [← hzero, mul_zero]
    · right
      have hmul := mul_pos hpos hcovered
      rcases h.sign_eq with rfl | rfl <;> linarith
  · rw [hvelocity, abs_mul, abs_sign h.sign_eq, one_mul, abs_of_nonneg hspeed]
    exact hspeed'.trans h.fastest.1

theorem envelope_sampleAt_along (h : Leads start target limits p sign) (hxy : x ≤ y) :
    Envelope start target limits ((along p start sign).sampleAt x) ((along p start sign).sampleAt y) := by
  refine ⟨within_sampleAt h x, within_sampleAt h y, ?_⟩
  rw [(sampleAt_eq p start h.sign_eq x).1, (sampleAt_eq p start h.sign_eq y).1, add_sub_cancel_left,
    add_sub_cancel_left, abs_mul, abs_mul, abs_of_nonneg (wayAt_mem p x).1, abs_of_nonneg (wayAt_mem p y).1]
  exact mul_le_mul_of_nonneg_left (wayAt_mono hxy) (abs_nonneg _)

/-! ### Before the end -/

theorem wayAt_of_lt (h : 0 ≤ x) (h' : x < p.time - kEndpointEpsilonS) : wayAt p x = p.covered x := by
  have hepsilon := kEndpointEpsilonS_pos
  rw [wayAt, clock_of_mem h (by linarith), if_neg (not_le.2 h')]

theorem speedAt_of_lt (h : 0 ≤ x) (h' : x < p.time - kEndpointEpsilonS) : speedAt p x = p.speed x := by
  have hepsilon := kEndpointEpsilonS_pos
  rw [speedAt, clock_of_mem h (by linarith), if_neg (not_le.2 h')]

theorem integral_velocity (hsign : sign = 1 ∨ sign = -1)
    (hx : x ∈ Set.Ico 0 (p.time - kEndpointEpsilonS)) (hy : y ∈ Set.Ico 0 (p.time - kEndpointEpsilonS)) :
    ∫ t in x..y, ((along p start sign).sampleAt t).velocity = sign * (p.covered y - p.covered x) := by
  have hvelocity : Set.EqOn (fun t => ((along p start sign).sampleAt t).velocity)
      (fun t => sign * p.speed t) (Set.uIcc x y) := by
    intro t ht
    have hmem := Set.ordConnected_Ico.uIcc_subset hx hy ht
    have heq := (sampleAt_eq p start hsign t).2.1
    rw [speedAt_of_lt hmem.1 hmem.2] at heq
    exact heq
  rw [intervalIntegral.integral_congr hvelocity, intervalIntegral.integral_const_mul, p.covered_sub]

end Along

theorem envelope_resting {start : ℝ} {limits : JointLimits ℝ} (hv : 0 < limits.maxVelocity)
    (ha : 0 < limits.maxAcceleration) : Envelope start start limits ⟨start, 0, 0⟩ ⟨start, 0, 0⟩ := by
  have hwithin : Within start start limits ⟨start, 0, 0⟩ := by
    refine ⟨Set.left_mem_uIcc, .inl rfl, ?_, ?_⟩
    · rw [abs_zero]
      exact hv.le
    · rw [abs_zero]
      exact ha.le
  exact ⟨hwithin, hwithin, le_refl _⟩

/-- Of two samples at any real times, the envelope. -/
theorem envelope_sampleAt {start target : ℝ} {limits : JointLimits ℝ} {trajectory : TrapezoidalTrajectory ℝ}
    (h : create start target limits = .ok trajectory) {x y : ℝ} (hxy : x ≤ y) :
    Envelope start target limits (trajectory.sampleAt x) (trajectory.sampleAt y) := by
  obtain ⟨hv, ha⟩ := JointLimits.pos_of_validate (create_eq_ok_iff.1 h).1
  rcases cases_of_create h with ⟨rfl, rfl⟩ | ⟨p, sign, hleads, rfl⟩
  · rw [sampleAt_resting, sampleAt_resting]
    exact envelope_resting hv ha
  · exact envelope_sampleAt_along hleads hxy

/-- Wherever and whenever it is sampled, a trajectory that is created keeps to the way between its ends, never
goes back and keeps the limits. -/
theorem keeps_envelope {start target : ℝ} {limits : JointLimits ℝ} {trajectory : TrapezoidalTrajectory ℝ}
    (h : create start target limits = .ok trajectory) :
    (∀ seconds seconds' : ℝ, seconds ≤ seconds' →
      Envelope start target limits (trajectory.sampleAt seconds) (trajectory.sampleAt seconds')) ∧
    ∀ t₁ t₂ : Int, t₁ ≤ t₂ →
      Envelope start target limits (trajectory.sample t₁) (trajectory.sample t₂) := by
  have hreal := fun x y hxy => envelope_sampleAt h (x := x) (y := y) hxy
  refine ⟨hreal, fun t₁ t₂ hle => hreal _ _ ?_⟩
  rw [Joint.seconds_eq, Joint.seconds_eq]
  exact div_le_div_of_nonneg_right (Int.cast_le.2 hle) (by norm_num)

theorem keeps_envelope_backwards :
    (∀ seconds seconds' : ℝ, seconds ≤ seconds' →
      Envelope 5 0 ⟨-180, 180, 2, 5⟩ ((plan 5 0 ⟨-180, 180, 2, 5⟩).sampleAt seconds)
        ((plan 5 0 ⟨-180, 180, 2, 5⟩).sampleAt seconds')) ∧
    ∀ t₁ t₂ : Int, t₁ ≤ t₂ →
      Envelope 5 0 ⟨-180, 180, 2, 5⟩ ((plan 5 0 ⟨-180, 180, 2, 5⟩).sample t₁)
        ((plan 5 0 ⟨-180, 180, 2, 5⟩).sample t₂) := by
  refine keeps_envelope (create_of_mem ?_ ?_ ?_ ⟨?_, ?_⟩ ⟨?_, ?_⟩) <;> norm_num

/-- Until a hundred nanoseconds before its end, position and velocity of a trajectory that is created change no
faster than the limits allow, and the position changes by the integral of the velocity. -/
theorem joins {start target : ℝ} {limits : JointLimits ℝ} {trajectory : TrapezoidalTrajectory ℝ}
    (h : create start target limits = .ok trajectory) {x y : ℝ}
    (hx : x ∈ Set.Ico 0 (trajectory.totalDurationS - kEndpointEpsilonS))
    (hy : y ∈ Set.Ico 0 (trajectory.totalDurationS - kEndpointEpsilonS)) :
    |(trajectory.sampleAt x).position - (trajectory.sampleAt y).position| ≤ limits.maxVelocity * |x - y| ∧
      |(trajectory.sampleAt x).velocity - (trajectory.sampleAt y).velocity|
        ≤ limits.maxAcceleration * |x - y| ∧
      (trajectory.sampleAt y).position - (trajectory.sampleAt x).position
        = ∫ t in x..y, (trajectory.sampleAt t).velocity := by
  rcases cases_of_create h with ⟨-, rfl⟩ | ⟨p, sign, hleads, rfl⟩
  · have hepsilon := kEndpointEpsilonS_pos
    have hempty := hx.1.trans_lt hx.2
    rw [totalDurationS_resting] at hempty
    linarith
  · rw [totalDurationS_along] at hx hy
    obtain ⟨hposition, hvelocity, -⟩ := sampleAt_eq p start hleads.sign_eq x
    obtain ⟨hposition', hvelocity', -⟩ := sampleAt_eq p start hleads.sign_eq y
    rw [integral_velocity hleads.sign_eq hx hy, hposition, hposition', hvelocity, hvelocity',
      wayAt_of_lt hx.1 hx.2, wayAt_of_lt hy.1 hy.2, speedAt_of_lt hx.1 hx.2, speedAt_of_lt hy.1 hy.2,
      add_sub_add_left_eq_sub, ← mul_sub, ← mul_sub, abs_mul, abs_mul, abs_sign hleads.sign_eq, one_mul, one_mul]
    refine ⟨?_, ?_, by ring⟩
    · calc |p.covered x - p.covered y| ≤ p.top * |x - y| := p.abs_covered_sub_le x y
        _ ≤ limits.maxVelocity * |x - y| :=
            mul_le_mul_of_nonneg_right hleads.fastest.1 (abs_nonneg _)
    · rw [← hleads.slope_eq]
      exact p.abs_speed_sub_le x y

theorem joins_first_second :
    |((plan 0 10 ⟨-180, 180, 2, 5⟩).sampleAt 0).position - ((plan 0 10 ⟨-180, 180, 2, 5⟩).sampleAt 1).position|
        ≤ 2 * |(0 : ℝ) - 1| ∧
      |((plan 0 10 ⟨-180, 180, 2, 5⟩).sampleAt 0).velocity
          - ((plan 0 10 ⟨-180, 180, 2, 5⟩).sampleAt 1).velocity| ≤ 5 * |(0 : ℝ) - 1| ∧
      ((plan 0 10 ⟨-180, 180, 2, 5⟩).sampleAt 1).position - ((plan 0 10 ⟨-180, 180, 2, 5⟩).sampleAt 0).position
        = ∫ t in (0 : ℝ)..1, ((plan 0 10 ⟨-180, 180, 2, 5⟩).sampleAt t).velocity := by
  have hcreate : create 0 10 ⟨-180, 180, 2, 5⟩ = .ok (plan (0 : ℝ) 10 ⟨-180, 180, 2, 5⟩) := by
    refine create_of_mem ?_ ?_ ?_ ⟨?_, ?_⟩ ⟨?_, ?_⟩ <;> norm_num
  have hlong : 2 < (plan (0 : ℝ) 10 ⟨-180, 180, 2, 5⟩).totalDurationS := by
    rw [lt_totalDurationS_iff hcreate two_pos, Trapezoid.reach]
    norm_num
  refine joins hcreate ⟨le_refl 0, ?_⟩ ⟨zero_le_one, ?_⟩
  · rw [kEndpointEpsilonS_eq]
    linarith
  · rw [kEndpointEpsilonS_eq]
    linarith

end RobotEmu.TrapezoidalTrajectory
