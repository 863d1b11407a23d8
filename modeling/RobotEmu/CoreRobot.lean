import RobotEmu.CoreJoint

/-! The robot: its joints in order. A robot is only ever created from a configuration that validates
and no command changes a joint's limits, so a robot carries both facts: it has a joint, and the limits
of its joints validate. A joint is reached by an index that is known to be below the joint count. -/

namespace RobotEmu

variable {F : Type*} [Arith F]

structure RobotConfig (F : Type*) where
  name : String
  joints : List (JointLimits F)

/-- At least one joint, and every joint's limits valid; the first invalid one gives the error. -/
def RobotConfig.validate (config : RobotConfig F) : Except JointError Unit :=
  if config.joints.isEmpty then .error .invalidConfiguration
  else forM config.joints JointLimits.validate

theorem forM_eq_ok_iff {α ε : Type*} {f : α → Except ε PUnit} {items : List α} :
    forM items f = .ok ⟨⟩ ↔ ∀ item ∈ items, f item = .ok ⟨⟩ := by
  induction items with
  | nil => exact ⟨fun _ => nofun, fun _ => rfl⟩
  | cons item items ih =>
      rw [List.forM_cons, List.forall_mem_cons, ← ih]
      cases f item with
      | error e => simp [bind, Except.bind]
      | ok u => simp [bind, Except.bind]

theorem RobotConfig.validate_eq_ok_iff {config : RobotConfig F} :
    config.validate = .ok () ↔ config.joints ≠ [] ∧
      ∀ limits ∈ config.joints, limits.validate = .ok () := by
  unfold RobotConfig.validate
  split_ifs with hempty
  · simp [List.isEmpty_iff.1 hempty]
  · rw [forM_eq_ok_iff]
    simp [List.isEmpty_iff.not.1 hempty]

structure Robot (F : Type*) [Arith F] where
  name : String
  joints : List (Joint F)
  nonempty : joints ≠ []
  valid : ∀ joint ∈ joints, joint.limits.validate = .ok ()

namespace Robot

/-- The robot of a configuration that validates. -/
def ofConfig (config : RobotConfig F) (h : config.validate = .ok ()) : Robot F where
  name := config.name
  joints := config.joints.map Joint.ofLimits
  nonempty := by
    rw [Ne, List.map_eq_nil_iff]
    exact (RobotConfig.validate_eq_ok_iff.1 h).1
  valid := by
    intro joint hjoint
    obtain ⟨limits, hlimits, rfl⟩ := List.mem_map.1 hjoint
    exact (RobotConfig.validate_eq_ok_iff.1 h).2 limits hlimits

def create (config : RobotConfig F) : Except JointError (Robot F) :=
  match h : config.validate with
  | .error e => .error e
  | .ok () => .ok (ofConfig config h)

theorem create_eq_ok_iff {config : RobotConfig F} {robot : Robot F} :
    create config = .ok robot ↔ ∃ h, robot = ofConfig config h := by
  unfold create
  split
  · next e herr => simp [herr]
  · next hok => simp [hok, eq_comm]

def jointCount (robot : Robot F) : Nat := robot.joints.length

/-- `joint(index)`; the index must be below the joint count. -/
def joint (robot : Robot F) (index : Nat) (h : index < robot.jointCount) : Joint F :=
  robot.joints[index]

/-- A loop over `joints()` that runs one command on every joint. -/
def forJoints (robot : Robot F) (command : Joint F → Joint F)
    (hlimits : ∀ joint, (command joint).limits = joint.limits) : Robot F where
  name := robot.name
  joints := robot.joints.map command
  nonempty := by
    rw [Ne, List.map_eq_nil_iff]
    exact robot.nonempty
  valid := by
    intro joint hjoint
    obtain ⟨joint, hmem, rfl⟩ := List.mem_map.1 hjoint
    rw [hlimits]
    exact robot.valid joint hmem

/-- A joint written back through the reference `joint(index)` returns. -/
def setJoint (robot : Robot F) (index : Nat) (h : index < robot.jointCount) (new : Joint F)
    (hlimits : new.limits = (robot.joint index h).limits) : Robot F where
  name := robot.name
  joints := robot.joints.set index new
  nonempty := by
    rw [Ne, List.set_eq_nil_iff]
    exact robot.nonempty
  valid := by
    intro joint hjoint
    rcases List.mem_or_eq_of_mem_set hjoint with hmem | rfl
    · exact robot.valid joint hmem
    · rw [hlimits]
      exact robot.valid _ (List.getElem_mem h)

/-- `Robot::update` over `dt` nanoseconds. -/
def update (robot : Robot F) (dt : Int) : Robot F :=
  robot.forJoints (·.update dt) fun joint => joint.limits_update dt

/-- Where the joints are. -/
def positions (robot : Robot F) : List F := robot.joints.map (·.state.position)

@[simp] theorem joints_forJoints (robot : Robot F) (command : Joint F → Joint F)
    (h : ∀ joint, (command joint).limits = joint.limits) :
    (robot.forJoints command h).joints = robot.joints.map command := rfl

@[simp] theorem joints_setJoint (robot : Robot F) (index : Nat) (h : index < robot.jointCount)
    (new : Joint F) (hlimits : new.limits = (robot.joint index h).limits) :
    (robot.setJoint index h new hlimits).joints = robot.joints.set index new := rfl

@[simp] theorem joints_update (robot : Robot F) (dt : Int) :
    (robot.update dt).joints = robot.joints.map (·.update dt) := rfl

@[ext] theorem ext {robot robot' : Robot F} (hname : robot.name = robot'.name)
    (hjoints : robot.joints = robot'.joints) : robot = robot' := by
  cases robot
  cases robot'
  simp only [mk.injEq]
  exact ⟨hname, hjoints⟩

/-- A joint written back as it was leaves the robot as it was. -/
@[simp] theorem setJoint_self (robot : Robot F) (index : Nat) (h : index < robot.jointCount)
    (hlimits : (robot.joint index h).limits = (robot.joint index h).limits) :
    robot.setJoint index h (robot.joint index h) hlimits = robot :=
  ext rfl (List.set_getElem_self h)

theorem joint_mem (robot : Robot F) (index : Nat) (h : index < robot.jointCount) :
    robot.joint index h ∈ robot.joints := List.getElem_mem h

/-- A robot all of whose joints are disabled does not move. -/
theorem update_of_disabled {robot : Robot F} (h : ∀ joint ∈ robot.joints, joint.enabled = false)
    (dt : Int) : (robot.update dt).joints = robot.joints := by
  rw [joints_update, List.map_congr_left fun joint hmem => Joint.update_of_disabled (h joint hmem) dt]
  exact List.map_id' robot.joints

end Robot
end RobotEmu
