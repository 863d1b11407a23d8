import RobotEmu.MotionTrajectory

/-! The ends of a trajectory, in exact arithmetic. Its duration is rounded to nanoseconds, and the last hundred of
them are skipped: from the duration on the target is sampled, but a trajectory that takes no longer than what is
skipped never samples its start. The limits may be so small that the duration exceeds the type it is counted
in. -/

namespace RobotEmu.TrapezoidalTrajectory

open Arith

variable {start target : ℝ} {limits : JointLimits ℝ} {trajectory : TrapezoidalTrajectory ℝ}

/-- The start state up to time zero, the target from the duration on. -/
structure KeepsEnds (start target : ℝ) (limits : JointLimits ℝ) (trajectory : TrapezoidalTrajectory ℝ) : Prop where
  starts : ∀ t : Int, t ≤ 0 → trajectory.sample t =
    ⟨start, 0, if start < target then limits.maxAcceleration else -limits.maxAcceleration⟩
  ends : ∀ t : Int, trajectory.duration ≤ t → trajectory.sample t = ⟨target, 0, 0⟩

theorem duration_eq (trajectory : TrapezoidalTrajectory ℝ) :
    trajectory.duration = Chrono.round (trajectory.totalDurationS * 1000000000) := by
  rw [duration, ofInt_eq, Int.cast_ofNat]

theorem totalDurationS_nonneg (h : create start target limits = .ok trajectory) :
    0 ≤ trajectory.totalDurationS := by
  rcases cases_of_create h with ⟨-, rfl⟩ | ⟨p, sign, -, rfl⟩
  · rw [totalDurationS_resting]
  · rw [totalDurationS_along]
    exact p.time_pos.le

section Along

variable {p : Trapezoid} {sign : ℝ}

/-- The sign is that of the direction. -/
theorem Leads.sign_mul (h : Leads start target limits p sign) (x : ℝ) :
    sign * x = if start < target then x else -x := by
  have hcovered := p.covered_time_pos
  have harrives := h.arrives
  rcases h.sign_eq with rfl | rfl
  · rw [if_pos (by linarith), one_mul]
  · rw [if_neg (by linarith), neg_one_mul]

/-- From a hundred nanoseconds before its end on a trajectory samples its target. -/
theorem sampleAt_of_le (h : Leads start target limits p sign) {x : ℝ}
    (hx : p.time - kEndpointEpsilonS ≤ clock p x) : (along p start sign).sampleAt x = ⟨target, 0, 0⟩ := by
  rw [sampleAt_along (sign_ne_zero h.sign_eq), if_pos hx, h.arrives]

theorem samplePhase_zero (p : Trapezoid) (start sign : ℝ) :
    (along p start sign).samplePhase 0 = ⟨start, 0, sign * p.slope⟩ := by
  have hrise : (0 : ℝ) ≤ (along p start sign).accelDurationS := p.rise_pos.le
  rw [samplePhase]
  simp only [if_pos hrise, mul_zero, add_zero]
  rfl

theorem clock_of_nonpos {t : Int} (h : t ≤ 0) : clock p (Joint.seconds t) = 0 := by
  have hseconds : (Joint.seconds t : ℝ) ≤ 0 := by
    rw [Joint.seconds_eq]
    exact div_nonpos_of_nonpos_of_nonneg (Int.cast_nonpos.2 h) (by norm_num)
  rw [clock, max_eq_left ((min_le_left _ _).trans hseconds)]

/-- The skipped time is longer than what rounding takes off. -/
theorem le_clock_of_duration_le {t : Int} (h : (along p start sign).duration ≤ t) :
    p.time - kEndpointEpsilonS ≤ clock p (Joint.seconds t) := by
  have hround := Chrono.le_round_add_half ((along p start sign).totalDurationS * 1000000000)
  have hle : ((along p start sign).duration : ℝ) ≤ t := Int.cast_le.2 h
  rw [duration_eq] at hle
  rw [totalDurationS_along] at hround hle
  rw [kEndpointEpsilonS_eq, Joint.seconds_eq]
  refine le_max_of_le_right (le_min ?_ (by linarith))
  linarith

end Along

/-- A trajectory that takes no longer than what is skipped samples nothing but its target. -/
theorem sampleAt_of_short (h : create start target limits = .ok trajectory) (hne : start ≠ target)
    (hshort : trajectory.totalDurationS ≤ kEndpointEpsilonS) (x : ℝ) :
    trajectory.sampleAt x = ⟨target, 0, 0⟩ := by
  rcases cases_of_create h with ⟨heq, -⟩ | ⟨p, sign, hleads, rfl⟩
  · exact absurd heq hne
  · rw [totalDurationS_along] at hshort
    exact sampleAt_of_le hleads ((sub_nonpos.2 hshort).trans (clock_mem p x).1)

/-- The ends are kept if and only if the way is longer than what the limits allow in a hundred nanoseconds. -/
theorem keepsEnds_iff (h : create start target limits = .ok trajectory) (hne : start ≠ target) :
    KeepsEnds start target limits trajectory ↔
      Trapezoid.reach limits.maxVelocity limits.maxAcceleration kEndpointEpsilonS < |target - start| := by
  rw [← lt_totalDurationS_iff h kEndpointEpsilonS_pos]
  constructor
  · intro hkeeps
    by_contra hshort
    have hstart := hkeeps.starts 0 (le_refl 0)
    rw [sample, sampleAt_of_short h hne (not_lt.1 hshort)] at hstart
    exact hne (congrArg TrajectorySample.position hstart).symm
  · intro hlong
    rcases cases_of_create h with ⟨heq, -⟩ | ⟨p, sign, hleads, rfl⟩
    · exact absurd heq hne
    · rw [totalDurationS_along] at hlong
      refine ⟨fun t ht => ?_, fun t ht => sampleAt_of_le hleads (le_clock_of_duration_le ht)⟩
      rw [sample, sampleAt_along (sign_ne_zero hleads.sign_eq), clock_of_nonpos ht,
        if_neg (not_le.2 (sub_pos.2 hlong)), samplePhase_zero, hleads.slope_eq, hleads.sign_mul]

theorem keepsEnds_iff_forwards :
    KeepsEnds 0 10 ⟨-180, 180, 2, 5⟩ (plan 0 10 ⟨-180, 180, 2, 5⟩) ↔
      Trapezoid.reach 2 5 kEndpointEpsilonS < |(10 : ℝ) - 0| := by
  refine keepsEnds_iff (create_of_mem ?_ ?_ ?_ ⟨?_, ?_⟩ ⟨?_, ?_⟩) ?_ <;> norm_num

/-- A way of `2 ^ -50` takes 29.8 ns, which are all skipped. -/
theorem not_keepsEnds :
    ¬∀ (start target : ℝ) (limits : JointLimits ℝ) (trajectory : TrapezoidalTrajectory ℝ),
      create start target limits = .ok trajectory → start ≠ target → 0 < trajectory.duration →
        KeepsEnds start target limits trajectory := by
  intro hall
  have hcreate : create 0 (1 / 2 ^ 50) ⟨-1, 1, 2, 4⟩ = .ok (plan (0 : ℝ) (1 / 2 ^ 50) ⟨-1, 1, 2, 4⟩) := by
    refine create_of_mem ?_ ?_ ?_ ⟨?_, ?_⟩ ⟨?_, ?_⟩ <;> norm_num
  have hne : (0 : ℝ) ≠ 1 / 2 ^ 50 := by norm_num
  have hreach : ∀ x : ℝ, x ≤ 1 / 2 → Trapezoid.reach 2 4 x = x ^ 2 := by
    intro x hx
    rw [Trapezoid.reach, min_eq_left (by linarith)]
    ring
  have hlong : 1 / 1000000000 < (plan (0 : ℝ) (1 / 2 ^ 50) ⟨-1, 1, 2, 4⟩).totalDurationS := by
    rw [lt_totalDurationS_iff hcreate (by norm_num), hreach _ (by norm_num)]
    norm_num
  have hshort : (plan (0 : ℝ) (1 / 2 ^ 50) ⟨-1, 1, 2, 4⟩).totalDurationS < kEndpointEpsilonS := by
    rw [kEndpointEpsilonS_eq, totalDurationS_lt_iff hcreate (by norm_num), hreach _ (by norm_num)]
    norm_num
  have hpos : 0 < (plan (0 : ℝ) (1 / 2 ^ 50) ⟨-1, 1, 2, 4⟩).duration := by
    have hround :=
      Chrono.le_round_add_half ((plan (0 : ℝ) (1 / 2 ^ 50) ⟨-1, 1, 2, 4⟩).totalDurationS * 1000000000)
    rw [← duration_eq] at hround
    have hcast : (0 : ℝ) < (plan (0 : ℝ) (1 / 2 ^ 50) ⟨-1, 1, 2, 4⟩).duration := by linarith
    exact Int.cast_pos.1 hcast
  have hstart := (hall _ _ _ _ hcreate hne hpos).starts 0 (le_refl 0)
  rw [sample, sampleAt_of_short hcreate hne hshort.le] at hstart
  exact hne (congrArg TrajectorySample.position hstart).symm

/-! ### The type of the duration -/

/-- The range of a signed count of 64 bits. -/
def InInt64 (n : Int) : Prop := -2 ^ 63 ≤ n ∧ n < 2 ^ 63

/-- The duration is within the range of its type if and only if the way is shorter than what the limits allow in
the longest time that is rounded into it. -/
theorem inInt64_duration_iff (h : create start target limits = .ok trajectory) :
    InInt64 trajectory.duration ↔
      |target - start| <
        Trapezoid.reach limits.maxVelocity limits.maxAcceleration ((2 ^ 63 - 1 / 2) / 1000000000) := by
  have hbillion : (0 : ℝ) < 1000000000 := by norm_num
  have hnonneg : -2 ^ 63 ≤ trajectory.duration := by
    have hround := Chrono.le_round_add_half (trajectory.totalDurationS * 1000000000)
    have htotal := mul_nonneg (totalDurationS_nonneg h) hbillion.le
    rw [← duration_eq] at hround
    have hcast : ((-2 ^ 63 : Int) : ℝ) ≤ trajectory.duration := by
      push_cast
      linarith
    exact Int.cast_le.1 hcast
  have heven : (2 ^ 63 : Int) % 2 = 0 := by norm_num
  have hcast : ((2 ^ 63 : Int) : ℝ) = 2 ^ 63 := by norm_num
  calc InInt64 trajectory.duration ↔ trajectory.duration < 2 ^ 63 := and_iff_right hnonneg
    _ ↔ trajectory.totalDurationS * 1000000000 < 2 ^ 63 - 1 / 2 := by
        rw [duration_eq, Chrono.round_lt_iff heven, hcast]
    _ ↔ trajectory.totalDurationS < (2 ^ 63 - 1 / 2) / 1000000000 := (lt_div_iff₀ hbillion).symm
    _ ↔ _ := totalDurationS_lt_iff h (by norm_num)

theorem inInt64_duration_iff_forwards :
    InInt64 (plan (0 : ℝ) 10 ⟨-180, 180, 2, 5⟩).duration ↔
      |(10 : ℝ) - 0| < Trapezoid.reach 2 5 ((2 ^ 63 - 1 / 2) / 1000000000) := by
  refine inInt64_duration_iff (create_of_mem ?_ ?_ ?_ ⟨?_, ?_⟩ ⟨?_, ?_⟩) <;> norm_num

/-- A way of one at a velocity of `2 ^ -34` takes over `2 ^ 34` seconds. -/
theorem not_inInt64_duration :
    ¬∀ (start target : ℝ) (limits : JointLimits ℝ) (trajectory : TrapezoidalTrajectory ℝ),
      create start target limits = .ok trajectory → InInt64 trajectory.duration := by
  intro hall
  have hcreate : create 0 1 ⟨-1, 1, 1 / 2 ^ 34, 1⟩ = .ok (plan (0 : ℝ) 1 ⟨-1, 1, 1 / 2 ^ 34, 1⟩) := by
    refine create_of_mem ?_ ?_ ?_ ⟨?_, ?_⟩ ⟨?_, ?_⟩ <;> norm_num
  have hlong : 2 ^ 34 < (plan (0 : ℝ) 1 ⟨-1, 1, 1 / 2 ^ 34, 1⟩).totalDurationS := by
    rw [lt_totalDurationS_iff hcreate (by norm_num), Trapezoid.reach, min_eq_right (by norm_num)]
    norm_num
  have hround := Chrono.le_round_add_half ((plan (0 : ℝ) 1 ⟨-1, 1, 1 / 2 ^ 34, 1⟩).totalDurationS * 1000000000)
  have hle : (plan (0 : ℝ) 1 ⟨-1, 1, 1 / 2 ^ 34, 1⟩).duration ≤ 2 ^ 63 - 1 :=
    Int.le_sub_one_of_lt (hall _ _ _ _ hcreate).2
  have hcast : ((plan (0 : ℝ) 1 ⟨-1, 1, 1 / 2 ^ 34, 1⟩).duration : ℝ) ≤ ((2 ^ 63 - 1 : Int) : ℝ) :=
    Int.cast_le.2 hle
  rw [← duration_eq] at hround
  norm_num at hcast hlong
  linarith

end RobotEmu.TrapezoidalTrajectory
