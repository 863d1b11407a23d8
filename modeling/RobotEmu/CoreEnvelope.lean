import RobotEmu.CoreLimits

/-! The envelope of the joints over doubles: target and position within the position limits, velocity
within the velocity limit, none of them NaN. From a joint in its envelope the control law meets no
operation whose result is not a number, so only a target that is not a number leads out of it. -/

namespace RobotEmu

open Arith Machine
open Binary64 hiding ofInt

/-- Limits around zero, finite for the position and a number for the velocity. -/
structure JointLimits.Bounded (limits : JointLimits Binary64) : Prop where
  spanZero : limits.SpanZero
  min_finite : limits.minPosition.IsFinite
  max_finite : limits.maxPosition.IsFinite
  velocity_number : ¬limits.maxVelocity.IsNaN

namespace Joint

/-- The position and the target are numbers within the position limits, the velocity is a number within
the velocity limit. -/
def InEnvelope (joint : Joint Binary64) : Prop :=
  joint.InLimits ∧
    -joint.limits.maxVelocity ≤ joint.state.velocity ∧ joint.state.velocity ≤ joint.limits.maxVelocity

instance : DecidablePred InEnvelope := fun _ => inferInstanceAs (Decidable (((_ ∧ _) ∧ _ ∧ _) ∧ _ ∧ _))

/-- What keeps the control law clear of NaN besides the envelope. -/
structure Sane (joint : Joint Binary64) : Prop where
  valid : joint.limits.validate = .ok ()
  bounded : joint.limits.Bounded
  velocity_finite : joint.state.velocity.IsFinite

theorem Sane.zero_lt_maxVelocity {joint : Joint Binary64} (h : joint.Sane) :
    ofInt 0 < joint.limits.maxVelocity :=
  lt_of_not_le h.bounded.velocity_number (by decide) (JointLimits.validate_eq_ok_iff.1 h.valid).2.1

/-- The next velocity is a number within the limit, and so is the place it leads to a number. -/
theorem nextVelocity_number {joint : Joint Binary64} (h : joint.Sane) (henv : joint.InEnvelope)
    {dt : Binary64} (hdt : dt.IsPositiveFinite) :
    ¬(joint.nextVelocity dt).IsNaN ∧
      (-joint.limits.maxVelocity ≤ joint.nextVelocity dt ∧
        joint.nextVelocity dt ≤ joint.limits.maxVelocity) ∧
      ¬(joint.state.position + joint.nextVelocity dt * dt).IsNaN := by
  obtain ⟨⟨hposition, htarget⟩, -⟩ := henv
  have hposition_finite :=
    isFinite_of_le_of_le h.bounded.min_finite h.bounded.max_finite hposition.1 hposition.2
  have htarget_finite :=
    isFinite_of_le_of_le h.bounded.min_finite h.bounded.max_finite htarget.1 htarget.2
  have hgain : (kPositionGain : Binary64).IsPositiveFinite := by decide
  have herror : ¬(joint.targetPosition - joint.state.position).IsNaN :=
    not_isNaN_sub htarget_finite.not_isNaN hposition_finite
  have hdesired : ¬joint.desiredVelocity.IsNaN := not_isNaN_stdClamp (not_isNaN_mul hgain herror).1
  have hdelta : ¬(joint.deltaVelocity dt).IsNaN :=
    not_isNaN_stdClamp (not_isNaN_sub hdesired h.velocity_finite)
  have hsum : ¬(joint.state.velocity + joint.deltaVelocity dt).IsNaN :=
    not_isNaN_add h.velocity_finite hdelta
  have hvelocity : ¬(joint.nextVelocity dt).IsNaN := not_isNaN_stdClamp hsum
  refine ⟨hvelocity, stdClamp_mem hsum (neg_le_zero_le h.zero_lt_maxVelocity).2.2, ?_⟩
  exact not_isNaN_add hposition_finite (not_isNaN_mul hdt hvelocity).2

/-- An infinite next velocity leads to the infinity of its sign, outside the limits. -/
theorem nextVelocity_finite_of_place {joint : Joint Binary64} (h : joint.Sane) (henv : joint.InEnvelope)
    {dt : Binary64} (hdt : dt.IsPositiveFinite) (hinfinite : ¬(joint.nextVelocity dt).IsFinite) :
    (ofInt 0 < joint.nextVelocity dt ∧
        joint.limits.maxPosition < joint.state.position + joint.nextVelocity dt * dt) ∨
      (joint.nextVelocity dt < ofInt 0 ∧
        ¬joint.limits.maxPosition < joint.state.position + joint.nextVelocity dt * dt ∧
        joint.state.position + joint.nextVelocity dt * dt < joint.limits.minPosition) := by
  obtain ⟨hnumber, -, -⟩ := nextVelocity_number h henv hdt
  obtain ⟨⟨hposition, -⟩, -⟩ := henv
  have hposition_finite :=
    isFinite_of_le_of_le h.bounded.min_finite h.bounded.max_finite hposition.1 hposition.2
  obtain ⟨sign, hsign⟩ := exists_infinity hnumber hinfinite
  have hplace := unpack_add_mul_infinity hposition_finite hsign hdt
  cases sign with
  | positive =>
      exact .inl ⟨(lt_infinity (by decide) hsign).1, (lt_infinity h.bounded.max_finite hplace).1⟩
  | negative =>
      exact .inr ⟨(infinity_lt (by decide) hsign).1, (infinity_lt h.bounded.max_finite hplace).2,
        (infinity_lt h.bounded.min_finite hplace).1⟩

/-- Clamping what one step of the control law gives restores the envelope and a finite velocity. -/
theorem inEnvelope_clampToLimits_integrate {joint : Joint Binary64} (h : joint.Sane)
    (henv : joint.InEnvelope) {dt : Binary64} (hdt : dt.IsPositiveFinite) :
    (joint.integrate dt).clampToLimits.InEnvelope ∧
      (joint.integrate dt).clampToLimits.state.velocity.IsFinite := by
  obtain ⟨-, hrange, hplace⟩ := nextVelocity_number h henv hdt
  have hinfinite := nextVelocity_finite_of_place h henv hdt
  have hmin := h.bounded.min_finite.not_isNaN
  have hmax := h.bounded.max_finite.not_isNaN
  have horder : joint.limits.minPosition ≤ joint.limits.maxPosition :=
    le_of_lt (lt_of_not_le hmax hmin (JointLimits.validate_eq_ok_iff.1 h.valid).1)
  obtain ⟨hbelow, habove, -⟩ := neg_le_zero_le h.zero_lt_maxVelocity
  have hzero : (ofInt 0 : Binary64).IsFinite := by decide
  unfold clampToLimits
  split_ifs with hhigh hlow
  · refine ⟨⟨⟨⟨horder, le_self hmax⟩, henv.1.2⟩, ?_⟩, ?_⟩
    · change -joint.limits.maxVelocity ≤ stdMin (joint.nextVelocity dt) (ofInt 0) ∧
        stdMin (joint.nextVelocity dt) (ofInt 0) ≤ joint.limits.maxVelocity
      unfold stdMin
      split_ifs
      · exact ⟨hbelow, habove⟩
      · exact hrange
    · change (stdMin (joint.nextVelocity dt) (ofInt 0)).IsFinite
      unfold stdMin
      split_ifs with hpositive
      · exact hzero
      · by_contra hnot
        rcases hinfinite hnot with ⟨hfast, -⟩ | ⟨-, hnothigh, -⟩
        · exact hpositive hfast
        · exact hnothigh hhigh
  · refine ⟨⟨⟨⟨le_self hmin, horder⟩, henv.1.2⟩, ?_⟩, ?_⟩
    · change -joint.limits.maxVelocity ≤ stdMax (joint.nextVelocity dt) (ofInt 0) ∧
        stdMax (joint.nextVelocity dt) (ofInt 0) ≤ joint.limits.maxVelocity
      unfold stdMax
      split_ifs
      · exact ⟨hbelow, habove⟩
      · exact hrange
    · change (stdMax (joint.nextVelocity dt) (ofInt 0)).IsFinite
      unfold stdMax
      split_ifs with hnegative
      · exact hzero
      · by_contra hnot
        rcases hinfinite hnot with ⟨-, hhigh'⟩ | ⟨hfast, -⟩
        · exact hhigh hhigh'
        · exact hnegative hfast
  · refine ⟨⟨⟨⟨le_of_not_lt hplace hmin hlow, le_of_not_lt hmax hplace hhigh⟩, henv.1.2⟩, hrange⟩, ?_⟩
    by_contra hnot
    rcases hinfinite hnot with ⟨-, hhigh'⟩ | ⟨-, -, hlow'⟩
    · exact hhigh hhigh'
    · exact hlow hlow'

/-- An update keeps a sane joint in its envelope, and sane. -/
theorem inEnvelope_update {joint : Joint Binary64} (h : joint.Sane) (henv : joint.InEnvelope) {dt : Int}
    (hdt : (seconds dt : Binary64).IsPositiveFinite) :
    (joint.update dt).InEnvelope ∧ (joint.update dt).Sane := by
  have hlimits := joint.limits_update dt
  have hboth : (joint.update dt).InEnvelope ∧ (joint.update dt).state.velocity.IsFinite := by
    unfold update
    split_ifs
    · exact ⟨henv, h.velocity_finite⟩
    · exact ⟨henv, h.velocity_finite⟩
    · exact inEnvelope_clampToLimits_integrate h henv hdt
  exact ⟨hboth.1, hlimits ▸ h.valid, hlimits ▸ h.bounded, hboth.2⟩

/-- Homing puts a sane joint at zero, in its envelope. -/
theorem inEnvelope_home {joint : Joint Binary64} (h : joint.Sane) :
    joint.home.InEnvelope ∧ joint.home.Sane := by
  obtain ⟨hbelow, habove, -⟩ := neg_le_zero_le h.zero_lt_maxVelocity
  have hzero : (ofInt 0 : Binary64).IsFinite := by decide
  exact ⟨⟨⟨h.bounded.spanZero, h.bounded.spanZero⟩, hbelow, habove⟩, h.valid, h.bounded, hzero⟩

/-- A joint starts at rest at zero, in its envelope. -/
theorem sane_ofLimits {limits : JointLimits Binary64} (hvalid : limits.validate = .ok ()) (hbounded : limits.Bounded) :
    (ofLimits limits).Sane ∧ (ofLimits limits).InEnvelope := by
  have hzero : (ofInt 0 : Binary64).IsFinite := by decide
  have hsane : (ofLimits limits).Sane := ⟨hvalid, hbounded, hzero⟩
  obtain ⟨hbelow, habove, -⟩ := neg_le_zero_le hsane.zero_lt_maxVelocity
  exact ⟨hsane, ⟨hbounded.spanZero, hbounded.spanZero⟩, hbelow, habove⟩

end Joint

/-! ### Commands on a robot -/

/-- No target position that is not a number, and a time that fits 64 bits. -/
def CoreCommand.Numeric : CoreCommand Binary64 → Prop
  | .setTargetPosition _ position => ¬position.IsNaN
  | .updateJoint _ dt => -2 ^ 63 ≤ dt ∧ dt < 2 ^ 63
  | .update dt => -2 ^ 63 ≤ dt ∧ dt < 2 ^ 63
  | _ => True

namespace Joint

theorem sane_update {joint : Joint Binary64} (h : joint.Sane ∧ joint.InEnvelope) {dt : Int} (hlo : -2 ^ 63 ≤ dt)
    (hhi : dt < 2 ^ 63) : (joint.update dt).Sane ∧ (joint.update dt).InEnvelope := by
  have hfinite : (seconds dt : Binary64).IsFinite :=
    (div_mem_uIcc (isFinite_ofInt hlo hhi.le) (by decide) (by decide)).1
  by_cases hdt : (seconds dt : Binary64) ≤ ofInt 0
  · have hstill : joint.update dt = joint := by
      rw [update, if_pos hdt, ite_self]
    rw [hstill]
    exact h
  · have hpos := lt_of_not_le hfinite.not_isNaN (not_isNaN_ofInt 0) hdt
    exact (inEnvelope_update h.1 h.2 ⟨hfinite, hpos⟩).symm

theorem sane_setTargetPosition {joint : Joint Binary64} (h : joint.Sane ∧ joint.InEnvelope) {position : Binary64}
    (hnumber : ¬position.IsNaN) :
    (joint.setTargetPosition position).2.Sane ∧ (joint.setTargetPosition position).2.InEnvelope := by
  obtain ⟨hsane, ⟨hposition, -⟩, hvelocity⟩ := id h
  rcases joint.setTargetPosition_cases position with ⟨hset, -, hmin, hmax⟩ | ⟨e, hset, -⟩
  · rw [hset]
    refine ⟨⟨hsane.valid, hsane.bounded, hsane.velocity_finite⟩, ⟨hposition, ?_, ?_⟩, hvelocity⟩
    · exact le_of_not_lt hnumber hsane.bounded.min_finite.not_isNaN hmin
    · exact le_of_not_lt hsane.bounded.max_finite.not_isNaN hnumber hmax
  · rw [hset]
    exact h

theorem sane_act {joint : Joint Binary64} (h : joint.Sane ∧ joint.InEnvelope) {command : CoreCommand Binary64}
    (hcommand : command.Numeric) : (command.act joint).Sane ∧ (command.act joint).InEnvelope := by
  cases command with
  | enable index | disable index => exact ⟨⟨h.1.valid, h.1.bounded, h.1.velocity_finite⟩, h.2⟩
  | home index => exact (inEnvelope_home h.1).symm
  | setTargetPosition index position => exact sane_setTargetPosition h hcommand
  | setTargetVelocity index velocity =>
      rw [CoreCommand.act, setTargetVelocity]
      split_ifs
      · exact h
      · exact h
      · exact ⟨⟨h.1.valid, h.1.bounded, h.1.velocity_finite⟩, h.2⟩
  | updateJoint index dt | update dt => exact sane_update h hcommand.1 hcommand.2

end Joint

/-- Commands without a NaN keep the joints of a robot with bounded limits in their envelopes. -/
theorem Robot.sane_throughout (config : RobotConfig Binary64) (h : config.validate = .ok ())
    (hbounded : ∀ limits ∈ config.joints, limits.Bounded) {commands : List (CoreCommand Binary64)}
    (hcommands : ∀ command ∈ commands, command.Numeric) :
    Throughout Robot.command (fun robot => ∀ joint ∈ robot.joints, joint.Sane ∧ joint.InEnvelope)
      (Robot.ofConfig config h) commands := by
  apply Along.throughout _ _ (along_iff_forall.2 hcommands)
  · intro robot command hrobot hcommand
    exact Robot.command_invariant (p := fun joint => joint.Sane ∧ joint.InEnvelope)
      (fun joint _ hjoint => Joint.sane_act hjoint hcommand) hrobot
  · intro joint hjoint
    obtain ⟨limits, hlimits, rfl⟩ := List.mem_map.1 hjoint
    exact Joint.sane_ofLimits ((RobotConfig.validate_eq_ok_iff.1 h).2 limits hlimits) (hbounded limits hlimits)

end RobotEmu
