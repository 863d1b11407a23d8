import Mathlib.Algebra.Order.Ring.Rat
import Mathlib.Algebra.Field.Rat
import RobotEmu.Machine
import RobotEmu.CoreRobot

/-! Position limits in exact arithmetic. The commands on joints keep the position and the target
within the limits as long as zero, where `create` and `home` put both, lies within them; the validator
does not ask for that. -/

namespace RobotEmu

open Arith

/-- What the owner of a robot can do with it: a command on one joint, by index, or `Robot::update`. -/
inductive CoreCommand (F : Type*) where
  | enable (index : Nat)
  | disable (index : Nat)
  | home (index : Nat)
  | setTargetPosition (index : Nat) (position : F)
  | setTargetVelocity (index : Nat) (velocity : F)
  | updateJoint (index : Nat) (dt : Int)
  | update (dt : Int)

section
variable {F : Type*} [Arith F]

/-- One command on the joint at an index; `joint(index)` is only called below the joint count. -/
def Robot.atJoint (robot : Robot F) (index : Nat) (command : Joint F → Joint F)
    (hlimits : ∀ joint, (command joint).limits = joint.limits) : Robot F :=
  if h : index < robot.jointCount then
    robot.setJoint index h (command (robot.joint index h)) (hlimits _)
  else robot

def Robot.command (robot : Robot F) : CoreCommand F → Robot F
  | .enable index => robot.atJoint index Joint.enable Joint.limits_enable
  | .disable index => robot.atJoint index Joint.disable Joint.limits_disable
  | .home index => robot.atJoint index Joint.home Joint.limits_home
  | .setTargetPosition index position =>
      robot.atJoint index (fun joint => (joint.setTargetPosition position).2) fun joint =>
        joint.limits_setTargetPosition position
  | .setTargetVelocity index velocity =>
      robot.atJoint index (fun joint => (joint.setTargetVelocity velocity).2) fun joint =>
        joint.limits_setTargetVelocity velocity
  | .updateJoint index dt =>
      robot.atJoint index (·.update dt) fun joint => joint.limits_update dt
  | .update dt => robot.update dt

def Robot.InLimits (robot : Robot F) : Prop := ∀ joint ∈ robot.joints, joint.InLimits

/-- What a command does to a joint that it is about. -/
def CoreCommand.act : CoreCommand F → Joint F → Joint F
  | .enable _, joint => joint.enable
  | .disable _, joint => joint.disable
  | .home _, joint => joint.home
  | .setTargetPosition _ position, joint => (joint.setTargetPosition position).2
  | .setTargetVelocity _ velocity, joint => (joint.setTargetVelocity velocity).2
  | .updateJoint _ dt, joint => joint.update dt
  | .update dt, joint => joint.update dt

theorem CoreCommand.limits_act (command : CoreCommand F) (joint : Joint F) :
    (command.act joint).limits = joint.limits := by
  cases command with
  | enable index | disable index | home index => rfl
  | setTargetPosition index x => exact joint.limits_setTargetPosition x
  | setTargetVelocity index x => exact joint.limits_setTargetVelocity x
  | updateJoint index dt | update dt => exact joint.limits_update dt

/-- A joint after a command was there before, or is what the command has made of one. -/
theorem Robot.mem_command {robot : Robot F} {command : CoreCommand F} {joint : Joint F}
    (h : joint ∈ (robot.command command).joints) :
    joint ∈ robot.joints ∨ ∃ before ∈ robot.joints, joint = command.act before := by
  have hat : ∀ index {f : Joint F → Joint F} (hf : ∀ joint, (f joint).limits = joint.limits),
      joint ∈ (robot.atJoint index f hf).joints → joint ∈ robot.joints ∨ ∃ before ∈ robot.joints, joint = f before := by
    intro index f hf hjoint
    unfold Robot.atJoint at hjoint
    split_ifs at hjoint with hindex
    · rcases List.mem_or_eq_of_mem_set hjoint with hmem | rfl
      · exact .inl hmem
      · exact .inr ⟨_, robot.joint_mem index hindex, rfl⟩
    · exact .inl hjoint
  cases command with
  | enable index | disable index | home index | setTargetPosition index x | setTargetVelocity index x
  | updateJoint index dt => exact hat index (CoreCommand.limits_act _) h
  | update dt =>
      obtain ⟨before, hmem, rfl⟩ := List.mem_map.1 h
      exact .inr ⟨before, hmem, rfl⟩

/-- A property of single joints that a command keeps on a joint is kept by it on the robot. -/
theorem Robot.command_invariant {p : Joint F → Prop} {command : CoreCommand F}
    (hact : ∀ joint, joint.limits.validate = .ok () → p joint → p (command.act joint)) {robot : Robot F}
    (h : ∀ joint ∈ robot.joints, p joint) : ∀ joint ∈ (robot.command command).joints, p joint := by
  intro joint hjoint
  rcases Robot.mem_command hjoint with hmem | ⟨before, hmem, rfl⟩
  · exact h joint hmem
  · exact hact before (robot.valid before hmem) (h before hmem)

end

section
variable {K : Type*} [Field K] [LinearOrder K]

theorem Joint.inLimits_clampToLimits {joint : Joint K}
    (hvalid : joint.limits.minPosition ≤ joint.limits.maxPosition)
    (htarget : joint.limits.minPosition ≤ joint.targetPosition ∧
      joint.targetPosition ≤ joint.limits.maxPosition) : joint.clampToLimits.InLimits := by
  unfold Joint.clampToLimits
  split_ifs with habove hbelow
  · exact ⟨⟨hvalid, le_refl _⟩, htarget⟩
  · exact ⟨⟨le_refl _, hvalid⟩, htarget⟩
  · exact ⟨⟨not_lt.1 hbelow, not_lt.1 habove⟩, htarget⟩

theorem Joint.inLimits_update {joint : Joint K} (hvalid : joint.limits.validate = .ok ())
    (h : joint.InLimits) (dt : Int) : (joint.update dt).InLimits := by
  have horder : joint.limits.minPosition ≤ joint.limits.maxPosition :=
    le_of_lt (not_le.1 (JointLimits.validate_eq_ok_iff.1 hvalid).1)
  unfold Joint.update
  split_ifs
  · exact h
  · exact h
  · exact Joint.inLimits_clampToLimits horder h.2

theorem Joint.inLimits_setTargetPosition {joint : Joint K} (h : joint.InLimits) (x : K) :
    (joint.setTargetPosition x).2.InLimits := by
  rcases joint.setTargetPosition_cases x with ⟨hset, -, hmin, hmax⟩ | ⟨e, hset, -⟩
  · rw [hset]
    exact ⟨h.1, not_lt.1 hmin, not_lt.1 hmax⟩
  · rw [hset]
    exact h

theorem Joint.inLimits_home {joint : Joint K} (h : joint.limits.SpanZero) : joint.home.InLimits :=
  ⟨h, h⟩

theorem Robot.inLimits_command {robot : Robot K}
    (h : ∀ joint ∈ robot.joints, joint.limits.SpanZero ∧ joint.InLimits) (command : CoreCommand K) :
    ∀ joint ∈ (robot.command command).joints, joint.limits.SpanZero ∧ joint.InLimits := by
  apply Robot.command_invariant (p := fun joint => joint.limits.SpanZero ∧ joint.InLimits) _ h
  intro joint hvalid hj
  refine ⟨?_, ?_⟩
  · rw [CoreCommand.limits_act]
    exact hj.1
  · cases command with
    | enable index | disable index => exact hj.2
    | home index => exact Joint.inLimits_home hj.1
    | setTargetPosition index x => exact Joint.inLimits_setTargetPosition hj.2 x
    | setTargetVelocity index x =>
        rw [CoreCommand.act, Joint.setTargetVelocity]
        split_ifs <;> exact hj.2
    | updateJoint index dt | update dt => exact Joint.inLimits_update hvalid hj.2 dt

/-- In exact arithmetic a run of commands on a created robot is within the position limits throughout
exactly when every joint's limits contain zero. -/
theorem inLimits_throughout_iff (config : RobotConfig K) (h : config.validate = .ok ())
    (commands : List (CoreCommand K)) :
    Machine.Throughout Robot.command Robot.InLimits (Robot.ofConfig config h) commands ↔
      ∀ limits ∈ config.joints, limits.minPosition ≤ 0 ∧ 0 ≤ limits.maxPosition := by
  have hzero : ∀ joint ∈ (Robot.ofConfig config h).joints,
      joint.InLimits ↔ joint.limits.SpanZero := by
    intro joint hjoint
    obtain ⟨limits, -, rfl⟩ := List.mem_map.1 hjoint
    exact and_self_iff
  have hconfig : (∀ joint ∈ (Robot.ofConfig config h).joints, joint.limits.SpanZero) ↔
      ∀ limits ∈ config.joints, limits.minPosition ≤ 0 ∧ 0 ≤ limits.maxPosition := by
    simp only [Robot.ofConfig, List.forall_mem_map, Joint.limits_ofLimits, JointLimits.SpanZero,
      ofInt_zero]
  rw [← hconfig]
  constructor
  · intro hrun joint hjoint
    exact (hzero joint hjoint).1 (hrun.head joint hjoint)
  · intro hspan
    have hrun : Machine.Throughout Robot.command
        (fun robot => ∀ joint ∈ robot.joints, joint.limits.SpanZero ∧ joint.InLimits)
        (Robot.ofConfig config h) commands :=
      Machine.throughout_of_invariant (fun robot command hinv => Robot.inLimits_command hinv command)
        fun joint hjoint => ⟨hspan joint hjoint, (hzero joint hjoint).2 (hspan joint hjoint)⟩
    exact hrun.mono fun robot hinv joint hjoint => (hinv joint hjoint).2

/-- Limits around zero, and a run that stays within them. -/
theorem inLimits_throughout_iff_symmetric :
    Machine.Throughout Robot.command Robot.InLimits
      (Robot.ofConfig (⟨"", [⟨-1, 1, 2, 5⟩]⟩ : RobotConfig ℚ) (by decide))
      [.enable 0, .setTargetPosition 0 (1 / 2), .update 1000000, .home 0] :=
  (inLimits_throughout_iff _ _ _).2 (by simp)

/-- Limits on one side of zero: the validator accepts them, and the joint starts outside. -/
theorem not_inLimits_throughout :
    ¬∀ (config : RobotConfig ℚ) (h : config.validate = .ok ()) (commands : List (CoreCommand ℚ)),
      Machine.Throughout Robot.command Robot.InLimits (Robot.ofConfig config h) commands := by
  intro hall
  have hstart := (hall ⟨"", [⟨1, 2, 2, 5⟩]⟩ (by decide) []).head
  obtain ⟨⟨hmin, -⟩, -⟩ := hstart (Joint.ofLimits ⟨1, 2, 2, 5⟩) (List.mem_singleton_self _)
  exact absurd hmin (by decide)

end
end RobotEmu
