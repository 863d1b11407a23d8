import RobotEmu.Machine
import RobotEmu.ServerDispatcher

/-! Runs of the server: control steps, requests and watchdog responses in any order, each taken as a
whole under the one mutex. What the emergency stop, the enables and the motion amount to is a
supervisor with five phases and one enable flag for all joints; every reachable server refines it, item
by item. -/

namespace RobotEmu

/-- What takes the mutex next. -/
inductive Item where
  | control
  | request (frame : Frame)
  | watchdog

namespace Server

def next (server : Server) : Item → Server
  | .control => server.step
  | .request frame => (server.dispatch frame).1
  | .watchdog => server.trigger

/-- The server as `main` starts it, before anything takes the mutex. -/
def boot (config : RobotConfig Binary64) (h : config.validate = .ok ()) (brakes : List VirtualBrake) :
    Server where
  robot := Robot.ofConfig config h
  controller := .booted
  brakes := brakes
  controlLoop := .hz1000

/-- The limits of every joint of the scenario that `main` builds. -/
def defaultLimits : JointLimits Binary64 where
  minPosition := -Binary64.ofInt 180 * Numbers.pi / Binary64.ofInt 180
  maxPosition := Binary64.ofInt 180 * Numbers.pi / Binary64.ofInt 180
  maxVelocity := Binary64.ofInt 2
  maxAcceleration := Binary64.ofInt 5

/-- The scenario of `main`, for any number of joints. -/
def scenario (jointCount : Nat) : RobotConfig Binary64 :=
  ⟨"RE-6AXIS", List.replicate jointCount defaultLimits⟩

/-- The states of the server in some run of it, on any robot with any brakes. -/
def Reachable (server : Server) : Prop :=
  ∃ config h brakes, Machine.Reachable next (boot config h brakes) server

theorem Reachable.next {server : Server} (h : Reachable server) (item : Item) :
    Reachable (server.next item) := by
  obtain ⟨config, hvalid, brakes, hrun⟩ := h
  exact ⟨config, hvalid, brakes, hrun.step item⟩

/-- The scenario of `main` with some joints, just booted. -/
def bootScenario (jointCount : Nat) (h : (scenario jointCount).validate = .ok ()) : Server :=
  boot (scenario jointCount) h (List.replicate jointCount {})

theorem reachable_bootScenario (jointCount : Nat) (h : (scenario jointCount).validate = .ok ()) :
    Reachable (bootScenario jointCount h) := ⟨_, h, _, .refl _⟩

/-- The requests of a client that moves a joint. -/
def moveRequest (index : BitVec 8) (target : Binary64) : Item :=
  .request { type := .moveJoint, payload := encodeMoveJointPayload ⟨index, target⟩ }

/-- A request without payload. -/
def plainRequest (type : CommandType) : Item := .request { type := type, payload := [] }

/-- The request is answered with an `Ok` status. -/
def AnsweredOk (server : Server) (frame : Frame) : Prop :=
  (server.dispatch frame).2.payload.head? = some ResponseStatus.ok.byte

instance (server : Server) (frame : Frame) : Decidable (server.AnsweredOk frame) :=
  inferInstanceAs (Decidable (_ = _))

theorem answeredOk_moveJoint_iff {server : Server} {frame : Frame} (htype : frame.type = .moveJoint) :
    server.AnsweredOk frame ↔ ∃ payload, server.Accepts frame payload := by
  rw [AnsweredOk, dispatch, htype]
  dsimp only
  rcases server.exists_accepts_or_not frame with ⟨payload, h⟩ | h
  · rw [handleMoveJoint_of_accepts h]
    exact ⟨fun _ => ⟨payload, h⟩, fun _ => rfl⟩
  · rw [handleMoveJoint_of_not_accepts h]
    constructor
    · intro heq
      exact absurd (Option.some.inj heq) (by decide : ¬(1 : Byte) = 0)
    · rintro ⟨payload, hp⟩
      exact absurd hp (h payload)

theorem next_of_accepts {server : Server} {frame : Frame} {payload : MoveJointPayload}
    (htype : frame.type = .moveJoint) (h : server.Accepts frame payload) :
    server.next (.request frame) = server.moved payload h.index_lt := by
  rw [next, dispatch, htype]
  exact congrArg Prod.fst (handleMoveJoint_of_accepts h)

theorem next_of_not_accepts {server : Server} {frame : Frame} (htype : frame.type = .moveJoint)
    (h : ∀ payload, ¬server.Accepts frame payload) : server.next (.request frame) = server := by
  rw [next, dispatch, htype]
  exact congrArg Prod.fst (handleMoveJoint_of_not_accepts h)

/-! ### What an item does to the joints -/

/-- The commands that an item runs on every joint. -/
inductive CommandsAll (server : Server) : Item → (Joint Binary64 → Joint Binary64) → Prop
  | step : CommandsAll server .control (·.update server.controlLoop.period)
  | enable (frame) : CommandsAll server (.request frame) Joint.enable
  | disable (frame) : CommandsAll server (.request frame) Joint.disable
  | home (frame) : CommandsAll server (.request frame) Joint.home

/-- An item leaves the joints alone, or runs one command on all of them, or is an accepted `MoveJoint`
and sets the target of one. -/
theorem joints_next (server : Server) (item : Item) :
    (server.next item).robot.joints = server.robot.joints ∨
    (∃ command, server.CommandsAll item command ∧
      (server.next item).robot.joints = server.robot.joints.map command) ∨
    ∃ frame payload, ∃ h : server.Accepts frame payload, item = .request frame ∧
      frame.type = .moveJoint ∧
      (server.next item).robot.joints = server.robot.joints.set payload.jointIndex.toNat
        { server.robot.joint payload.jointIndex.toNat h.index_lt with
          targetPosition := payload.targetRadians } := by
  cases item with
  | control =>
      by_cases hmoving : server.controller.state = .moving
      · refine .inr (.inl ⟨_, .step, ?_⟩)
        simp only [next, step, if_pos hmoving, Robot.joints_update]
      · left
        simp only [next, step, if_neg hmoving]
  | watchdog => exact .inl rfl
  | request frame =>
      obtain ⟨flags, type, payload⟩ := frame
      cases type with
      | enable => exact .inr (.inl ⟨_, .enable _, rfl⟩)
      | disable => exact .inr (.inl ⟨_, .disable _, rfl⟩)
      | home => exact .inr (.inl ⟨_, .home _, rfl⟩)
      | moveJoint =>
          rcases server.exists_accepts_or_not ⟨flags, .moveJoint, payload⟩ with ⟨decoded, h⟩ | h
          · refine .inr (.inr ⟨_, decoded, h, rfl, rfl, ?_⟩)
            rw [next_of_accepts rfl h]
            rfl
          · left
            rw [next_of_not_accepts rfl h]
      | connect | getStatus | moveLinear | stop | emergencyStop | getPosition | getIO | setIO
        | resetFault | injectFault => exact .inl rfl

theorem controlLoop_period_next (server : Server) (item : Item) :
    (server.next item).controlLoop.period = server.controlLoop.period := by
  cases item with
  | control => rfl
  | watchdog => rfl
  | request frame => exact congrArg ControlLoop.period (server.dispatchFrame frame).controlLoop

end Server

/-! ### The supervisor -/

inductive Phase where
  | idle
  | servoOff
  | ready
  | moving
  | emergencyStop
  deriving DecidableEq, Repr

/-- What the server comes to when the numbers are left out. -/
structure Supervisor where
  phase : Phase
  enabled : Bool
  deriving DecidableEq, Repr

inductive Order where
  | enable
  | disable
  | move
  | stop
  | trigger
  | nothing
  deriving DecidableEq, Repr

namespace Supervisor

def obey (supervisor : Supervisor) : Order → Supervisor
  | .enable =>
      { enabled := true
        phase := match supervisor.phase with
          | .idle | .servoOff => .ready
          | phase => phase }
  | .disable =>
      { enabled := false
        phase := match supervisor.phase with
          | .ready => .servoOff
          | phase => phase }
  | .move =>
      { supervisor with
        phase := match supervisor.phase with
          | .ready => .moving
          | phase => phase }
  | .stop =>
      { supervisor with
        phase := match supervisor.phase with
          | .moving => .ready
          | phase => phase }
  | .trigger =>
      { supervisor with
        phase := match supervisor.phase with
          | .ready | .moving => .emergencyStop
          | phase => phase }
  | .nothing => supervisor

/-- Enabled joints have left the phases before the first `Enable` and after a `Disable`. -/
def Sound (supervisor : Supervisor) : Prop :=
  supervisor.enabled = true → supervisor.phase ≠ .idle ∧ supervisor.phase ≠ .servoOff

theorem Sound.obey {supervisor : Supervisor} (h : supervisor.Sound) (order : Order) :
    (supervisor.obey order).Sound := by
  obtain ⟨phase, enabled⟩ := supervisor
  cases order <;> cases phase <;> cases enabled <;> simp_all [Sound, Supervisor.obey]

/-- The emergency stop is final. -/
theorem obey_emergencyStop {supervisor : Supervisor} (h : supervisor.phase = .emergencyStop)
    (order : Order) : (supervisor.obey order).phase = .emergencyStop := by
  obtain ⟨phase, enabled⟩ := supervisor
  obtain rfl : phase = .emergencyStop := h
  cases order <;> rfl

/-- Only an accepted move starts motion. -/
theorem obey_not_moving {supervisor : Supervisor} (h : supervisor.phase ≠ .moving) {order : Order}
    (horder : order ≠ .move) : (supervisor.obey order).phase ≠ .moving := by
  obtain ⟨phase, enabled⟩ := supervisor
  cases order <;> cases phase <;> simp_all [Supervisor.obey]

/-- Only `enable` leads out of the phases without motion. -/
theorem obey_not_ready {supervisor : Supervisor}
    (h : supervisor.phase ≠ .moving ∧ supervisor.phase ≠ .ready) {order : Order}
    (horder : order ≠ .enable) :
    (supervisor.obey order).phase ≠ .moving ∧ (supervisor.obey order).phase ≠ .ready := by
  obtain ⟨phase, enabled⟩ := supervisor
  cases order <;> cases phase <;> simp_all [Supervisor.obey]

/-- Only `enable` enables. -/
theorem obey_disabled {supervisor : Supervisor} (h : supervisor.enabled = false) {order : Order}
    (horder : order ≠ .enable) : (supervisor.obey order).enabled = false := by
  cases order <;> simp_all [Supervisor.obey]

end Supervisor

def Phase.state : Phase → ControllerState
  | idle => .idle
  | servoOff => .servoOff
  | ready => .ready
  | moving => .moving
  | emergencyStop => .emergencyStop

theorem Phase.state_inj {phase phase' : Phase} : phase.state = phase'.state ↔ phase = phase' := by
  cases phase <;> cases phase' <;> simp [Phase.state]

namespace Server

/-- What an item asks of the supervisor. -/
def order (server : Server) : Item → Order
  | .control => .nothing
  | .watchdog => .trigger
  | .request frame =>
      match frame.type with
      | .enable => .enable
      | .disable => .disable
      | .stop => .stop
      | .emergencyStop => .trigger
      | .moveJoint => if server.AnsweredOk frame then .move else .nothing
      | _ => .nothing

/-- The controller is in the supervisor's phase and every joint has its enable flag. -/
structure Refines (server : Server) (supervisor : Supervisor) : Prop where
  state : server.controller.state = supervisor.phase.state
  enabled : ∀ joint ∈ server.robot.joints, joint.enabled = supervisor.enabled

theorem Refines.state_iff {server : Server} {supervisor : Supervisor} (h : Refines server supervisor)
    (phase : Phase) : server.controller.state = phase.state ↔ supervisor.phase = phase := by
  rw [h.state, Phase.state_inj]

theorem Refines.enabled_iff {server : Server} {supervisor : Supervisor} (h : Refines server supervisor) :
    (∀ joint ∈ server.robot.joints, joint.enabled = true) ↔ supervisor.enabled = true := by
  obtain ⟨joint, hmem⟩ := List.exists_mem_of_ne_nil _ server.robot.nonempty
  constructor
  · intro hall
    exact (h.enabled joint hmem).symm.trans (hall joint hmem)
  · intro henabled joint hmem
    exact (h.enabled joint hmem).trans henabled

theorem Refines.boot (config : RobotConfig Binary64) (h : config.validate = .ok ())
    (brakes : List VirtualBrake) : Refines (boot config h brakes) ⟨.idle, false⟩ where
  state := rfl
  enabled joint hjoint := by
    obtain ⟨limits, -, rfl⟩ := List.mem_map.1 hjoint
    rfl

theorem Refines.step {server : Server} {supervisor : Supervisor} (h : Refines server supervisor) :
    Refines server.step supervisor where
  state := h.state
  enabled joint hjoint := by
    unfold Server.step at hjoint
    dsimp only at hjoint
    split_ifs at hjoint with hmoving
    · obtain ⟨joint, hmem, rfl⟩ := List.mem_map.1 hjoint
      rw [Joint.enabled_update]
      exact h.enabled joint hmem
    · exact h.enabled joint hjoint

theorem Refines.trigger {server : Server} {supervisor : Supervisor} (h : Refines server supervisor) :
    Refines server.trigger (supervisor.obey .trigger) where
  state := by
    obtain ⟨phase, enabled⟩ := supervisor
    rw [Server.trigger, ControllerStateMachine.state_eStopTriggered, h.state]
    cases phase <;> rfl
  enabled := h.enabled

theorem Refines.enable {server : Server} {supervisor : Supervisor} (h : Refines server supervisor) :
    Refines server.handleEnable.1 (supervisor.obey .enable) where
  state := by
    obtain ⟨phase, enabled⟩ := supervisor
    rw [handleEnable, ControllerStateMachine.state_enable, h.state]
    cases phase <;> rfl
  enabled joint hjoint := by
    obtain ⟨joint, -, rfl⟩ := List.mem_map.1 hjoint
    rfl

theorem Refines.disable {server : Server} {supervisor : Supervisor} (h : Refines server supervisor) :
    Refines server.handleDisable.1 (supervisor.obey .disable) where
  state := by
    obtain ⟨phase, enabled⟩ := supervisor
    rw [handleDisable, ControllerStateMachine.state_disable, h.state]
    cases phase <;> rfl
  enabled joint hjoint := by
    obtain ⟨joint, -, rfl⟩ := List.mem_map.1 hjoint
    rfl

theorem Refines.home {server : Server} {supervisor : Supervisor} (h : Refines server supervisor) :
    Refines server.handleHome.1 supervisor where
  state := h.state
  enabled joint hjoint := by
    obtain ⟨joint, hmem, rfl⟩ := List.mem_map.1 hjoint
    exact h.enabled joint hmem

theorem Refines.stop {server : Server} {supervisor : Supervisor} (h : Refines server supervisor) :
    Refines server.handleStop.1 (supervisor.obey .stop) where
  state := by
    obtain ⟨phase, enabled⟩ := supervisor
    rw [handleStop, ControllerStateMachine.state_stop, h.state]
    cases phase <;> rfl
  enabled := h.enabled

theorem Refines.moved {server : Server} {supervisor : Supervisor} (h : Refines server supervisor)
    {payload : MoveJointPayload} (hindex : payload.jointIndex.toNat < server.robot.jointCount) :
    Refines (server.moved payload hindex) (supervisor.obey .move) where
  state := by
    obtain ⟨phase, enabled⟩ := supervisor
    have hstate : server.controller.state = phase.state := h.state
    rw [Server.moved]
    dsimp only
    split_ifs with hready
    · obtain rfl : phase = .ready := Phase.state_inj.1 (hstate.symm.trans hready)
      exact ControllerStateMachine.state_commandMove hready
    · rw [hstate] at hready ⊢
      cases phase <;> first | rfl | exact absurd rfl hready
  enabled joint hjoint := by
    rcases List.mem_or_eq_of_mem_set hjoint with hmem | rfl
    · exact h.enabled joint hmem
    · exact h.enabled (server.robot.joint _ hindex) (server.robot.joint_mem _ hindex)

/-- Each item takes the server where its order takes the supervisor. -/
theorem Refines.next {server : Server} {supervisor : Supervisor} (h : Refines server supervisor)
    (item : Item) : Refines (server.next item) (supervisor.obey (server.order item)) := by
  cases item with
  | control => exact h.step
  | watchdog => exact h.trigger
  | request frame =>
      obtain ⟨flags, type, payload⟩ := frame
      cases type with
      | enable => exact h.enable
      | disable => exact h.disable
      | home => exact h.home
      | stop => exact h.stop
      | emergencyStop => exact h.trigger
      | moveJoint =>
          by_cases hok : server.AnsweredOk ⟨flags, .moveJoint, payload⟩
          · obtain ⟨decoded, haccepts⟩ := (answeredOk_moveJoint_iff rfl).1 hok
            rw [next_of_accepts rfl haccepts, order]
            dsimp only
            rw [if_pos hok]
            exact h.moved haccepts.index_lt
          · have hrefused : ∀ decoded, ¬server.Accepts ⟨flags, .moveJoint, payload⟩ decoded :=
              fun decoded haccepts => hok ((answeredOk_moveJoint_iff rfl).2 ⟨decoded, haccepts⟩)
            rw [next_of_not_accepts rfl hrefused, order]
            dsimp only
            rw [if_neg hok]
            exact h
      | getStatus | connect | moveLinear | getPosition | getIO | setIO | resetFault | injectFault =>
          exact h

/-- Every reachable server refines a sound supervisor. -/
theorem Reachable.refines {server : Server} (h : Reachable server) :
    ∃ supervisor, Refines server supervisor ∧ supervisor.Sound := by
  obtain ⟨config, hvalid, brakes, hrun⟩ := h
  refine hrun.invariant (I := fun server => ∃ supervisor, Refines server supervisor ∧ supervisor.Sound)
    ⟨_, Refines.boot config hvalid brakes, nofun⟩ fun server item hinv => ?_
  obtain ⟨supervisor, hrefines, hsound⟩ := hinv
  exact ⟨_, hrefines.next item, hsound.obey _⟩

end Server
end RobotEmu
