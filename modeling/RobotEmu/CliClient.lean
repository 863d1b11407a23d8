import RobotEmu.ServerRun

/-! The client of the command line. A command becomes a request; what `execute` returns is read off the
first thing decoded from the bytes received. The answers of the dispatcher to the requests of a client
are read as what was dispatched. -/

namespace RobotEmu

inductive CommandKind where
  | status
  | enable
  | disable
  | home
  | moveJoint
  | stop
  | emergencyStop
  deriving DecidableEq, Repr

/-- The index and the target matter to `moveJoint` only. -/
structure Command where
  kind : CommandKind
  jointIndex : BitVec 8 := 0
  targetDegrees : Binary64 := Binary64.ofInt 0
  deriving DecidableEq

def CommandKind.toCommandType : CommandKind → CommandType
  | status => .getStatus
  | enable => .enable
  | disable => .disable
  | home => .home
  | moveJoint => .moveJoint
  | stop => .stop
  | emergencyStop => .emergencyStop

def buildRequestFrame (command : Command) : Frame where
  flags := 0
  type := command.kind.toCommandType
  payload :=
    if command.kind = .moveJoint then
      encodeMoveJointPayload
        ⟨command.jointIndex, command.targetDegrees * Numbers.pi / Binary64.ofInt 180⟩
    else []

/-- `Client::Outcome`. -/
structure Outcome where
  status : ResponseStatus
  statusPayload : Option StatusPayload
  deriving DecidableEq

/-- What `Client::execute` makes of the frame it has received. -/
def interpretResponse (command : Command) (response : Frame) : Except CliError Outcome :=
  if response.type ≠ (buildRequestFrame command).type then .error .unexpectedResponseType
  else match response.payload with
    | [] => .error .protocolFailure
    | first :: rest =>
        let status : ResponseStatus := ⟨first⟩
        if status = .error then .error .serverReportedError
        else if command.kind = .status then
          match decodeStatusPayload rest with
          | .error e => .error e
          | .ok statusPayload => .ok ⟨status, some statusPayload⟩
        else .ok ⟨status, none⟩

theorem length_buildRequestFrame_le (command : Command) :
    (buildRequestFrame command).payload.length ≤ kEncodedSize := by
  rw [buildRequestFrame]
  dsimp only
  split_ifs
  · exact Nat.le_refl _
  · exact Nat.zero_le _

theorem wellFormed_buildRequestFrame (command : Command) :
    FrameCodec.WellFormed (buildRequestFrame command) :=
  calc (buildRequestFrame command).payload.length ≤ kEncodedSize := length_buildRequestFrame_le command
    _ ≤ FrameCodec.maxPayloadSize.toNat := by decide

namespace Server

/-! ### Answers the client can read -/

/-- As many joints as a status report can carry in a frame. -/
def maxJointCount : Nat := 65534

theorem jointCount_next (server : Server) (item : Item) :
    (server.next item).robot.jointCount = server.robot.jointCount := by
  unfold Robot.jointCount
  rcases server.joints_next item with h | ⟨command, -, h⟩ | ⟨frame, payload, haccepts, -, -, h⟩
  · rw [h]
  · rw [h, List.length_map]
  · rw [h, List.length_set]

theorem length_controllerStateName_le (server : Server) :
    server.statusPayload.controllerStateName.length ≤ 13 := by
  rw [statusPayload, length_bytesOf]
  exact ControllerState.length_toString_le _

theorem length_statusPayload_joints (server : Server) :
    server.statusPayload.joints.length = server.robot.jointCount := List.length_map _

theorem length_statusPayload_le {server : Server} (h : server.robot.jointCount ≤ maxJointCount) :
    (encodeStatusPayload server.statusPayload).length + 1 ≤ FrameCodec.maxPayloadSize.toNat := by
  have hname : server.statusPayload.robotName.length = 8 := rfl
  have hstate := server.length_controllerStateName_le
  have hcap : FrameCodec.maxPayloadSize.toNat = 1048576 := rfl
  rw [maxJointCount] at h
  rw [length_encodeStatusPayload, hname, length_statusPayload_joints, hcap]
  omega

theorem decodeStatusPayload_statusPayload {server : Server}
    (h : server.robot.jointCount ≤ maxJointCount) :
    decodeStatusPayload (encodeStatusPayload server.statusPayload) = .ok server.statusPayload := by
  have hname : server.statusPayload.robotName.length = 8 := rfl
  have hstate := server.length_controllerStateName_le
  rw [maxJointCount] at h
  have hcountable : server.statusPayload.Countable := by
    refine ⟨by omega, by omega, ?_⟩
    rw [length_statusPayload_joints]
    omega
  have hdecode := decodeStatusPayload_append hcountable []
  rwa [List.append_nil] at hdecode

/-- What an `Ok` answer to a command carries after the status byte. -/
def okExtra (server : Server) (command : Command) : List Byte :=
  if command.kind = .status then encodeStatusPayload server.statusPayload else []

/-- A client's request is answered with an error that is its status byte alone, or with what an `Ok`
answer to the command carries. A status report is never refused. -/
theorem response_cases (server : Server) (command : Command) :
    (server.dispatch (buildRequestFrame command)).2
        = Server.okResponse command.kind.toCommandType (server.okExtra command) ∨
      (server.dispatch (buildRequestFrame command)).2 = Server.errorResponse command.kind.toCommandType := by
  obtain ⟨kind, index, degrees⟩ := command
  cases kind with
  | status | enable | disable | home | stop | emergencyStop => exact .inl rfl
  | moveJoint =>
      generalize hrequest : buildRequestFrame ⟨.moveJoint, index, degrees⟩ = request
      have hdispatch : server.dispatch request = server.handleMoveJoint request := by
        rw [← hrequest]
        rfl
      rw [hdispatch]
      rcases server.exists_accepts_or_not request with ⟨payload, h⟩ | h
      · exact .inl (congrArg Prod.snd (handleMoveJoint_of_accepts h))
      · exact .inr (congrArg Prod.snd (handleMoveJoint_of_not_accepts h))

theorem wellFormed_response {server : Server} (h : server.robot.jointCount ≤ maxJointCount)
    (command : Command) : FrameCodec.WellFormed (server.dispatch (buildRequestFrame command)).2 := by
  rw [FrameCodec.WellFormed]
  rcases server.response_cases command with hok | herror
  · rw [hok]
    change (server.okExtra command).length + 1 ≤ _
    rw [okExtra]
    split_ifs
    · exact length_statusPayload_le h
    · exact (by decide : 0 + 1 ≤ FrameCodec.maxPayloadSize.toNat)
  · rw [herror]
    exact (by decide : 1 ≤ FrameCodec.maxPayloadSize.toNat)

end Server

/-- A result agrees with an answer to its command: an error is reported for an error status, and an
outcome for an `Ok` one, with the report that the server made of itself if the command asked for it. -/
inductive Interprets (server : Server) (command : Command) (response : Frame) :
    Except CliError Outcome → Prop
  | error (payload : response.payload = [ResponseStatus.error.byte]) :
      Interprets server command response (.error .serverReportedError)
  | ok (payload : response.payload = ResponseStatus.ok.byte :: server.okExtra command) :
      Interprets server command response
        (.ok ⟨.ok, if command.kind = .status then some server.statusPayload else none⟩)

theorem interpretResponse_error (command : Command) :
    interpretResponse command (Server.errorResponse command.kind.toCommandType)
      = .error .serverReportedError := by
  rw [interpretResponse, if_neg fun hne => hne rfl]
  rfl

theorem interpretResponse_ok {server : Server} (h : server.robot.jointCount ≤ Server.maxJointCount)
    (command : Command) :
    interpretResponse command (Server.okResponse command.kind.toCommandType (server.okExtra command))
      = .ok ⟨.ok, if command.kind = .status then some server.statusPayload else none⟩ := by
  rw [interpretResponse, if_neg fun hne => hne rfl, Server.okExtra]
  by_cases hstatus : command.kind = .status
  · rw [if_pos hstatus, if_pos hstatus, Server.okResponse, List.singleton_append]
    dsimp only
    rw [if_neg (by decide), if_pos hstatus, Server.decodeStatusPayload_statusPayload h]
  · rw [if_neg hstatus, if_neg hstatus, Server.okResponse, List.singleton_append]
    dsimp only
    rw [if_neg (by decide), if_neg hstatus]

/-- What the client makes of the server's answer agrees with it. -/
theorem interprets_response {server : Server} (h : server.robot.jointCount ≤ Server.maxJointCount)
    (command : Command) : Interprets server command (server.dispatch (buildRequestFrame command)).2
      (interpretResponse command (server.dispatch (buildRequestFrame command)).2) := by
  rcases server.response_cases command with hok | herror
  · rw [hok, interpretResponse_ok h]
    exact .ok rfl
  · rw [herror, interpretResponse_error]
    exact .error rfl

end RobotEmu
