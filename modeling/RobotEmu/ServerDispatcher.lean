import RobotEmu.CliPayload
import RobotEmu.ControllerStateMachine
import RobotEmu.CoreRobot
import RobotEmu.ProtocolFrame

/-! The server's state and what touches it under the mutex: the dispatcher of requests, the emergency
stop and the step of the control loop. A handler returns the server it leaves behind and its answer. -/

namespace RobotEmu

inductive BrakeState where
  | engaged
  | released
  deriving DecidableEq, Repr

structure VirtualBrake where
  state : BrakeState := .engaged
  deriving DecidableEq, Repr

def VirtualBrake.engage (brake : VirtualBrake) : VirtualBrake := { brake with state := .engaged }

/-- The loop's period in nanoseconds and its count of cycles. -/
structure ControlLoop where
  period : Int
  cyclesExecuted : BitVec 64

/-- The loop at `ControlLoopFrequency::Hz1000`. -/
def ControlLoop.hz1000 : ControlLoop := ⟨1000000000 / 1000, 0⟩

structure Server where
  robot : Robot Binary64
  controller : ControllerStateMachine
  brakes : List VirtualBrake
  controlLoop : ControlLoop

namespace Server

/-- `EmergencyStopController::trigger`: every brake engages, whether or not the controller has a
transition for the event. -/
def trigger (server : Server) : Server :=
  { server with
    brakes := server.brakes.map VirtualBrake.engage
    controller := server.controller.after .eStopTriggered }

/-- `ControlLoop::step`. -/
def step (server : Server) : Server :=
  { server with
    robot := if server.controller.state = .moving then server.robot.update server.controlLoop.period
      else server.robot
    controlLoop := { server.controlLoop with cyclesExecuted := server.controlLoop.cyclesExecuted + 1 } }

/-! ### The dispatcher -/

def kRobotName : List Byte := bytesOf "RE-6AXIS"

def okResponse (type : CommandType) (extra : List Byte) : Frame :=
  { type := type, payload := [ResponseStatus.ok.byte] ++ extra }

def errorResponse (type : CommandType) : Frame :=
  { type := type, payload := [ResponseStatus.error.byte] }

def statusPayload (server : Server) : StatusPayload where
  robotName := kRobotName
  controllerStateName := bytesOf server.controller.state.toString
  joints := server.robot.joints.map fun joint => ⟨joint.state.position, joint.state.velocity⟩

def handleGetStatus (server : Server) : Server × Frame :=
  (server, okResponse .getStatus (encodeStatusPayload server.statusPayload))

def handleEnable (server : Server) : Server × Frame :=
  ({ server with
    robot := server.robot.forJoints Joint.enable Joint.limits_enable
    controller := (server.controller.after .servoEnable).after .controllerReady },
    okResponse .enable [])

def handleDisable (server : Server) : Server × Frame :=
  ({ server with
    robot := server.robot.forJoints Joint.disable Joint.limits_disable
    controller := server.controller.after .servoDisable },
    okResponse .disable [])

def handleHome (server : Server) : Server × Frame :=
  ({ server with robot := server.robot.forJoints Joint.home Joint.limits_home }, okResponse .home [])

def handleMoveJoint (server : Server) (request : Frame) : Server × Frame :=
  match decodeMoveJointPayload request.payload with
  | .error _ => (server, errorResponse .moveJoint)
  | .ok payload =>
      if h : payload.jointIndex.toNat < server.robot.jointCount then
        let joint := server.robot.joint payload.jointIndex.toNat h
        let set := joint.setTargetPosition payload.targetRadians
        let server := { server with
          robot := server.robot.setJoint payload.jointIndex.toNat h set.2
            (joint.limits_setTargetPosition payload.targetRadians) }
        match set.1 with
        | .error _ => (server, errorResponse .moveJoint)
        | .ok () =>
            let server := if server.controller.state = .ready then
              { server with controller := server.controller.after .commandMove } else server
            (server, okResponse .moveJoint [])
      else (server, errorResponse .moveJoint)

def handleStop (server : Server) : Server × Frame :=
  ({ server with controller := (server.controller.after .commandStop).after .stopComplete },
    okResponse .stop [])

def handleEmergencyStop (server : Server) : Server × Frame :=
  (server.trigger, okResponse .emergencyStop [])

/-- `CommandDispatcher::dispatch`. -/
def dispatch (server : Server) (request : Frame) : Server × Frame :=
  match request.type with
  | .getStatus => server.handleGetStatus
  | .enable => server.handleEnable
  | .disable => server.handleDisable
  | .home => server.handleHome
  | .moveJoint => server.handleMoveJoint request
  | .stop => server.handleStop
  | .emergencyStop => server.handleEmergencyStop
  | type => (server, errorResponse type)

/-! ### What a `MoveJoint` request does -/

/-- The request names a joint that takes its target: the payload decodes, the index is below the joint
count, the joint is enabled and the target does not compare as out of its range. -/
structure Accepts (server : Server) (request : Frame) (payload : MoveJointPayload) : Prop where
  decodes : decodeMoveJointPayload request.payload = .ok payload
  index_lt : payload.jointIndex.toNat < server.robot.jointCount
  enabled : (server.robot.joint payload.jointIndex.toNat index_lt).enabled = true
  not_below : ¬payload.targetRadians <
    (server.robot.joint payload.jointIndex.toNat index_lt).limits.minPosition
  not_above : ¬payload.targetRadians >
    (server.robot.joint payload.jointIndex.toNat index_lt).limits.maxPosition

/-- The server with the target of one joint set and the motion begun if the controller is ready. -/
def moved (server : Server) (payload : MoveJointPayload)
    (h : payload.jointIndex.toNat < server.robot.jointCount) : Server :=
  { server with
    robot := server.robot.setJoint payload.jointIndex.toNat h
      { server.robot.joint payload.jointIndex.toNat h with targetPosition := payload.targetRadians } rfl
    controller := if server.controller.state = .ready then server.controller.after .commandMove
      else server.controller }

theorem handleMoveJoint_of_accepts {server : Server} {request : Frame} {payload : MoveJointPayload}
    (h : server.Accepts request payload) :
    server.handleMoveJoint request = (server.moved payload h.index_lt, okResponse .moveJoint []) := by
  rcases (server.robot.joint payload.jointIndex.toNat h.index_lt).setTargetPosition_cases
    payload.targetRadians with ⟨hset, -⟩ | ⟨e, -, hrefused⟩
  · simp only [handleMoveJoint, h.decodes, dif_pos h.index_lt, hset, moved]
    split_ifs <;> rfl
  · rcases hrefused with hdisabled | hbelow | habove
    · exact absurd (h.enabled.symm.trans hdisabled) (by decide)
    · exact absurd hbelow h.not_below
    · exact absurd habove h.not_above

theorem handleMoveJoint_of_not_accepts {server : Server} {request : Frame}
    (h : ∀ payload, ¬server.Accepts request payload) :
    server.handleMoveJoint request = (server, errorResponse .moveJoint) := by
  unfold handleMoveJoint
  cases hdecode : decodeMoveJointPayload request.payload with
  | error e => rfl
  | ok payload =>
      dsimp only
      by_cases hindex : payload.jointIndex.toNat < server.robot.jointCount
      · rcases (server.robot.joint payload.jointIndex.toNat hindex).setTargetPosition_cases
          payload.targetRadians with ⟨-, henabled, hbelow, habove⟩ | ⟨e, hset, -⟩
        · exact absurd ⟨hdecode, hindex, henabled, hbelow, habove⟩ (h payload)
        · simp only [dif_pos hindex, hset, Robot.setJoint_self]
      · rw [dif_neg hindex]

theorem exists_accepts_or_not (server : Server) (request : Frame) :
    (∃ payload, server.Accepts request payload) ∨ ∀ payload, ¬server.Accepts request payload :=
  (Classical.em _).imp_right not_exists.1

/-! ### Every request at once -/

/-- What a request leaves as it was, and what its answer looks like. -/
structure DispatchFrame (server : Server) (request : Frame) : Prop where
  type_echoed : (server.dispatch request).2.type = request.type
  /-- The first byte is the status. An error is that byte alone, and nothing has changed. -/
  status : ∃ status extra, (server.dispatch request).2.payload = status :: extra ∧
    (status = 0 ∨ status = 1 ∧ extra = [] ∧ (server.dispatch request).1 = server)
  getStatus : request.type = .getStatus → (server.dispatch request).1 = server
  /-- At most the target of the joint that the payload names, below the joint count, and the
  controller. -/
  moveJoint : request.type = .moveJoint → (server.dispatch request).1 = server ∨
    ∃ payload, decodeMoveJointPayload request.payload = .ok payload ∧
      ∃ h : payload.jointIndex.toNat < server.robot.jointCount,
        (server.dispatch request).1.robot.joints = server.robot.joints.set payload.jointIndex.toNat
          { server.robot.joint payload.jointIndex.toNat h with targetPosition := payload.targetRadians } ∧
        (server.dispatch request).1.brakes = server.brakes
  states : request.type ≠ .home →
    (server.dispatch request).1.robot.joints.map (·.state) = server.robot.joints.map (·.state)
  controlLoop : (server.dispatch request).1.controlLoop = server.controlLoop

/-- What one step of the control loop leaves as it was. -/
structure StepFrame (server : Server) : Prop where
  joint : ∀ (index : Nat) (joint : Joint Binary64), server.robot.joints[index]? = some joint →
    server.step.robot.joints[index]? = some joint ∨
      server.controller.state = .moving ∧ joint.enabled = true ∧ joint.faulted = false
  controller : server.step.controller = server.controller
  brakes : server.step.brakes = server.brakes

theorem map_state_set {joints : List (Joint Binary64)} {index : Nat} (h : index < joints.length)
    (target : Binary64) :
    (joints.set index { joints[index] with targetPosition := target }).map (·.state)
      = joints.map (·.state) := by
  have hmap : index < (joints.map (·.state)).length := by rwa [List.length_map]
  have hsame : joints[index].state = (joints.map (·.state))[index] := (List.getElem_map _).symm
  rw [List.map_set]
  dsimp only
  rw [hsame, List.set_getElem_self]

theorem DispatchFrame.of_error {server : Server} {request : Frame}
    (h : server.dispatch request = (server, errorResponse request.type)) :
    DispatchFrame server request where
  type_echoed := by rw [h]; rfl
  status := ⟨1, [], by rw [h]; rfl, .inr ⟨rfl, rfl, by rw [h]⟩⟩
  getStatus _ := by rw [h]
  moveJoint _ := .inl (by rw [h])
  states _ := by rw [h]
  controlLoop := by rw [h]

theorem DispatchFrame.of_moved {server : Server} {request : Frame} {payload : MoveJointPayload}
    (htype : request.type = .moveJoint) (h : server.Accepts request payload) :
    DispatchFrame server request := by
  have hdispatch : server.dispatch request = (server.moved payload h.index_lt, okResponse .moveJoint []) := by
    rw [dispatch, htype]
    exact handleMoveJoint_of_accepts h
  exact {
    type_echoed := by rw [hdispatch, htype]; rfl
    status := ⟨0, [], by rw [hdispatch]; rfl, .inl rfl⟩
    getStatus := fun hget => absurd (htype.symm.trans hget) (by decide)
    moveJoint := fun _ => .inr ⟨payload, h.decodes, h.index_lt, by rw [hdispatch]; rfl,
      by rw [hdispatch]; rfl⟩
    states := fun _ => by rw [hdispatch]; exact map_state_set h.index_lt payload.targetRadians
    controlLoop := by rw [hdispatch]; rfl }

theorem DispatchFrame.of_ok {server after : Server} {request : Frame} {extra : List Byte}
    (h : server.dispatch request = (after, okResponse request.type extra))
    (htype : request.type ≠ .moveJoint) (hget : request.type = .getStatus → after = server)
    (hstates : request.type ≠ .home →
      after.robot.joints.map (·.state) = server.robot.joints.map (·.state))
    (hloop : after.controlLoop = server.controlLoop) : DispatchFrame server request where
  type_echoed := by rw [h]; rfl
  status := ⟨0, extra, by rw [h]; rfl, .inl rfl⟩
  getStatus hstatus := by rw [h]; exact hget hstatus
  moveJoint hmove := absurd hmove htype
  states hhome := by rw [h]; exact hstates hhome
  controlLoop := by rw [h]; exact hloop

theorem dispatchFrame (server : Server) (request : Frame) : DispatchFrame server request := by
  have hmap : ∀ f : Joint Binary64 → Joint Binary64, (∀ joint, (f joint).state = joint.state) →
      (server.robot.joints.map f).map (·.state) = server.robot.joints.map (·.state) := by
    intro f hf
    rw [List.map_map]
    exact List.map_congr_left fun joint _ => hf joint
  obtain ⟨flags, type, payload⟩ := request
  cases type with
  | getStatus =>
      exact DispatchFrame.of_ok rfl nofun (fun _ => rfl) (fun _ => rfl) rfl
  | enable =>
      exact DispatchFrame.of_ok rfl nofun nofun (fun _ => hmap _ fun _ => rfl) rfl
  | disable =>
      exact DispatchFrame.of_ok rfl nofun nofun (fun _ => hmap _ fun _ => rfl) rfl
  | home => exact DispatchFrame.of_ok rfl nofun nofun (fun hne => absurd rfl hne) rfl
  | stop => exact DispatchFrame.of_ok rfl nofun nofun (fun _ => rfl) rfl
  | emergencyStop => exact DispatchFrame.of_ok rfl nofun nofun (fun _ => rfl) rfl
  | moveJoint =>
      rcases server.exists_accepts_or_not ⟨flags, .moveJoint, payload⟩ with ⟨decoded, h⟩ | h
      · exact DispatchFrame.of_moved rfl h
      · exact DispatchFrame.of_error (handleMoveJoint_of_not_accepts h)
  | connect | moveLinear | getPosition | getIO | setIO | resetFault | injectFault =>
      exact DispatchFrame.of_error rfl

theorem stepFrame (server : Server) : StepFrame server where
  joint index joint hjoint := by
    by_cases hmoving : server.controller.state = .moving
    · have hstep : server.step.robot.joints[index]? = some (joint.update server.controlLoop.period) := by
        simp only [step, if_pos hmoving, Robot.joints_update, List.getElem?_map, hjoint, Option.map_some]
      by_cases hsame : joint.update server.controlLoop.period = joint
      · exact .inl (hstep.trans (congrArg some hsame))
      · exact .inr ⟨hmoving, (joint.update_eq _).2 hsame⟩
    · left
      simp only [step, if_neg hmoving, hjoint]
  controller := rfl
  brakes := rfl

/-- Error answers leave everything as it was, and only the documented events touch a joint. -/
theorem documented_effects (server : Server) (request : Frame) :
    DispatchFrame server request ∧ StepFrame server :=
  ⟨server.dispatchFrame request, server.stepFrame⟩

end Server
end RobotEmu
