import RobotEmu.Arithmetic

/-! One joint of the robot: its limits, its state and the commands on it. A joint command that can
fail returns its answer next to the joint it leaves behind. The control law of `update` is split into
the values it computes on the way, in the order the source computes them. -/

namespace RobotEmu

open Arith

inductive JointError where
  | positionOutOfRange
  | velocityOutOfRange
  | accelerationOutOfRange
  | jointDisabled
  | invalidConfiguration
  deriving DecidableEq, Repr

structure JointLimits (F : Type*) where
  minPosition : F
  maxPosition : F
  maxVelocity : F
  maxAcceleration : F

structure JointState (F : Type*) where
  position : F
  velocity : F
  acceleration : F
  torque : F
  deriving DecidableEq

structure Joint (F : Type*) where
  limits : JointLimits F
  state : JointState F
  targetPosition : F
  targetVelocity : F
  enabled : Bool
  homed : Bool
  faulted : Bool

variable {F : Type*}

def Joint.enable (joint : Joint F) : Joint F := { joint with enabled := true }

def Joint.disable (joint : Joint F) : Joint F := { joint with enabled := false }

@[simp] theorem Joint.limits_enable (joint : Joint F) : joint.enable.limits = joint.limits := rfl

@[simp] theorem Joint.limits_disable (joint : Joint F) : joint.disable.limits = joint.limits := rfl

variable [Arith F]

def JointLimits.validate (limits : JointLimits F) : Except JointError Unit :=
  if limits.minPosition ≥ limits.maxPosition then .error .invalidConfiguration
  else if limits.maxVelocity ≤ ofInt 0 then .error .invalidConfiguration
  else if limits.maxAcceleration ≤ ofInt 0 then .error .invalidConfiguration
  else .ok ()

theorem JointLimits.validate_eq_ok_iff {limits : JointLimits F} :
    limits.validate = .ok () ↔ ¬limits.maxPosition ≤ limits.minPosition ∧
      ¬limits.maxVelocity ≤ ofInt 0 ∧ ¬limits.maxAcceleration ≤ ofInt 0 := by
  unfold JointLimits.validate
  split_ifs <;> simp_all

theorem JointLimits.pos_of_validate {K : Type*} [Field K] [LinearOrder K] {limits : JointLimits K}
    (h : limits.validate = .ok ()) : 0 < limits.maxVelocity ∧ 0 < limits.maxAcceleration := by
  obtain ⟨-, hvelocity, hacceleration⟩ := JointLimits.validate_eq_ok_iff.1 h
  rw [ofInt_zero, not_le] at hvelocity hacceleration
  exact ⟨hvelocity, hacceleration⟩

/-- Zero, where joints start and where they are homed, lies within the position limits. -/
def JointLimits.SpanZero (limits : JointLimits F) : Prop :=
  limits.minPosition ≤ ofInt 0 ∧ ofInt 0 ≤ limits.maxPosition

namespace Joint

/-- The position and the stored target lie within the position limits. -/
def InLimits (joint : Joint F) : Prop :=
  (joint.limits.minPosition ≤ joint.state.position ∧ joint.state.position ≤ joint.limits.maxPosition) ∧
    joint.limits.minPosition ≤ joint.targetPosition ∧ joint.targetPosition ≤ joint.limits.maxPosition

/-- Proportional gain from a position error to a velocity setpoint. -/
def kPositionGain : F := ofInt 8

/-- The constructor: disabled, not homed, not faulted, everything zero. -/
def ofLimits (limits : JointLimits F) : Joint F where
  limits := limits
  state := ⟨ofInt 0, ofInt 0, ofInt 0, ofInt 0⟩
  targetPosition := ofInt 0
  targetVelocity := ofInt 0
  enabled := false
  homed := false
  faulted := false

def home (joint : Joint F) : Joint F :=
  { joint with
    state := { joint.state with position := ofInt 0, velocity := ofInt 0, acceleration := ofInt 0 }
    targetPosition := ofInt 0
    targetVelocity := ofInt 0
    homed := true }

def setTargetPosition (joint : Joint F) (position : F) : Except JointError Unit × Joint F :=
  if !joint.enabled then (.error .jointDisabled, joint)
  else if position < joint.limits.minPosition ∨ position > joint.limits.maxPosition then
    (.error .positionOutOfRange, joint)
  else (.ok (), { joint with targetPosition := position })

def setTargetVelocity (joint : Joint F) (velocity : F) : Except JointError Unit × Joint F :=
  if !joint.enabled then (.error .jointDisabled, joint)
  else if velocity < -joint.limits.maxVelocity ∨ velocity > joint.limits.maxVelocity then
    (.error .velocityOutOfRange, joint)
  else (.ok (), { joint with targetVelocity := velocity })

/-- `std::chrono::duration<double>(dt).count()`. -/
def seconds (dt : Int) : F := ofInt dt / ofInt 1000000000

theorem seconds_eq {K : Type*} [Field K] [LinearOrder K] (dt : Int) : (seconds dt : K) = dt / 1000000000 := by
  rw [seconds, ofInt_eq, ofInt_eq, Int.cast_ofNat]

def desiredVelocity (joint : Joint F) : F :=
  stdClamp (kPositionGain * (joint.targetPosition - joint.state.position)) (-joint.limits.maxVelocity)
    joint.limits.maxVelocity

def deltaVelocity (joint : Joint F) (dtSeconds : F) : F :=
  stdClamp (joint.desiredVelocity - joint.state.velocity) (-(joint.limits.maxAcceleration * dtSeconds))
    (joint.limits.maxAcceleration * dtSeconds)

def nextVelocity (joint : Joint F) (dtSeconds : F) : F :=
  stdClamp (joint.state.velocity + joint.deltaVelocity dtSeconds) (-joint.limits.maxVelocity)
    joint.limits.maxVelocity

def clampToLimits (joint : Joint F) : Joint F :=
  if joint.state.position > joint.limits.maxPosition then
    { joint with state := { joint.state with
        position := joint.limits.maxPosition
        velocity := stdMin joint.state.velocity (ofInt 0) } }
  else if joint.state.position < joint.limits.minPosition then
    { joint with state := { joint.state with
        position := joint.limits.minPosition
        velocity := stdMax joint.state.velocity (ofInt 0) } }
  else joint

/-- Velocity ramped and position integrated over one step, before the position is clamped. -/
def integrate (joint : Joint F) (dtSeconds : F) : Joint F :=
  { joint with state := { joint.state with
      acceleration := joint.deltaVelocity dtSeconds / dtSeconds
      velocity := joint.nextVelocity dtSeconds
      position := joint.state.position + joint.nextVelocity dtSeconds * dtSeconds } }

/-- `Joint::update` over `dt` nanoseconds. -/
def update (joint : Joint F) (dt : Int) : Joint F :=
  if !joint.enabled || joint.faulted then joint
  else if (seconds dt : F) ≤ ofInt 0 then joint
  else (joint.integrate (seconds dt)).clampToLimits

/-! ### What the commands leave alone -/

@[simp] theorem limits_ofLimits (limits : JointLimits F) : (ofLimits limits).limits = limits := rfl

@[simp] theorem limits_home (joint : Joint F) : joint.home.limits = joint.limits := rfl

/-- A target that is set is the only change; a refused one changes nothing. -/
theorem setTargetPosition_cases (joint : Joint F) (position : F) :
    (joint.setTargetPosition position = (.ok (), { joint with targetPosition := position }) ∧
      joint.enabled = true ∧
      ¬position < joint.limits.minPosition ∧ ¬position > joint.limits.maxPosition) ∨
    ∃ e, joint.setTargetPosition position = (.error e, joint) ∧
      (joint.enabled = false ∨
        position < joint.limits.minPosition ∨ position > joint.limits.maxPosition) := by
  unfold setTargetPosition
  split_ifs with hdisabled hrange
  · exact .inr ⟨_, rfl, .inl (by simpa using hdisabled)⟩
  · exact .inr ⟨_, rfl, .inr hrange⟩
  · exact .inl ⟨rfl, by simpa using hdisabled, not_or.1 hrange⟩

@[simp] theorem limits_setTargetPosition (joint : Joint F) (position : F) :
    (joint.setTargetPosition position).2.limits = joint.limits := by
  rcases joint.setTargetPosition_cases position with ⟨h, -⟩ | ⟨e, h, -⟩ <;> rw [h]

@[simp] theorem limits_setTargetVelocity (joint : Joint F) (velocity : F) :
    (joint.setTargetVelocity velocity).2.limits = joint.limits := by
  unfold setTargetVelocity
  split_ifs <;> rfl

/-- Clamping moves nothing but the position and the velocity. -/
theorem clampToLimits_eq (joint : Joint F) :
    ∃ position velocity, joint.clampToLimits =
      { joint with state := { joint.state with position := position, velocity := velocity } } := by
  unfold clampToLimits
  split_ifs
  · exact ⟨_, _, rfl⟩
  · exact ⟨_, _, rfl⟩
  · exact ⟨joint.state.position, joint.state.velocity, rfl⟩

/-- An update moves nothing but the state, and only of a joint that is enabled and not faulted. -/
theorem update_eq (joint : Joint F) (dt : Int) :
    (∃ state, joint.update dt = { joint with state := state }) ∧
      (joint.update dt ≠ joint → joint.enabled = true ∧ joint.faulted = false) := by
  unfold update
  split_ifs with hguard hdt
  · exact ⟨⟨joint.state, rfl⟩, fun hne => absurd rfl hne⟩
  · exact ⟨⟨joint.state, rfl⟩, fun hne => absurd rfl hne⟩
  · obtain ⟨position, velocity, hclamp⟩ := (joint.integrate (seconds dt)).clampToLimits_eq
    rw [hclamp]
    exact ⟨⟨_, rfl⟩, fun _ => by simpa using hguard⟩

theorem update_of_disabled {joint : Joint F} (h : joint.enabled = false) (dt : Int) :
    joint.update dt = joint := by
  simp only [update, h, Bool.not_false, Bool.true_or, if_true]

@[simp] theorem limits_update (joint : Joint F) (dt : Int) :
    (joint.update dt).limits = joint.limits := by
  obtain ⟨state, h⟩ := (joint.update_eq dt).1
  rw [h]

@[simp] theorem targetPosition_update (joint : Joint F) (dt : Int) :
    (joint.update dt).targetPosition = joint.targetPosition := by
  obtain ⟨state, h⟩ := (joint.update_eq dt).1
  rw [h]

@[simp] theorem enabled_update (joint : Joint F) (dt : Int) :
    (joint.update dt).enabled = joint.enabled := by
  obtain ⟨state, h⟩ := (joint.update_eq dt).1
  rw [h]

end Joint
end RobotEmu
