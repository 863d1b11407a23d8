import RobotEmu.CliClient

/-! Status reports of any robot. The report's counts have sixteen bits, the frame's length thirty-two, and
the decoder takes payloads up to its cap; nothing on the sending side looks at any of these limits. -/

namespace RobotEmu

theorem ControllerState.le_length_toString (state : ControllerState) :
    4 ≤ state.toString.toList.length := by
  cases state <;> decide

/-- The scenario of `main` is valid for any number of joints. -/
theorem Server.validate_scenario {jointCount : Nat} (h : 0 < jointCount) :
    (scenario jointCount).validate = .ok () := by
  rw [RobotConfig.validate_eq_ok_iff]
  constructor
  · intro hempty
    exact Nat.ne_of_gt h ((List.replicate_eq_nil_iff _).1 hempty)
  · intro limits hlimits
    rw [List.eq_of_mem_replicate hlimits]
    decide

/-- Bytes that decode as one frame and nothing else have that frame's payload length. -/
theorem FrameCodec.length_payload_of_decode_encode {sent received : Frame}
    (h : decode (encode sent) = .ok ⟨received, (encode sent).length⟩) :
    received.payload.length = sent.payload.length ∧ WellFormed received := by
  obtain ⟨hwell, hconsumed, -⟩ := decode_eq_ok_iff.1 h
  rw [length_encode] at hconsumed
  exact ⟨(Nat.add_left_cancel hconsumed).symm, hwell⟩

namespace Server

/-- The answer to a request is one frame and nothing else, with an `Ok` status and a report that says the
state of the controller and, joint by joint, position and velocity. -/
def ReportsFaithfully (server : Server) (request : Frame) : Prop :=
  ∃ response report status,
    FrameCodec.decode (FrameCodec.encode (server.dispatch request).2) =
      .ok ⟨response, (FrameCodec.encode (server.dispatch request).2).length⟩ ∧
    response.payload = ResponseStatus.ok.byte :: report ∧
    decodeStatusPayload report = .ok status ∧
    status.controllerStateName = bytesOf server.controller.state.toString ∧
    status.joints = server.robot.joints.map fun joint => ⟨joint.state.position, joint.state.velocity⟩

theorem length_payload_getStatus (server : Server) (flags : BitVec 8) (payload : List Byte) :
    (server.dispatch ⟨flags, .getStatus, payload⟩).2.payload.length =
      15 + server.controller.state.toString.toList.length + 16 * server.robot.jointCount := by
  have hname : server.statusPayload.robotName.length = 8 := rfl
  have hstate : server.statusPayload.controllerStateName.length =
      server.controller.state.toString.toList.length := List.length_map _
  have hpayload : (server.dispatch ⟨flags, .getStatus, payload⟩).2.payload.length =
      (encodeStatusPayload server.statusPayload).length + 1 := rfl
  rw [hpayload, length_encodeStatusPayload, hname, hstate, length_statusPayload_joints]
  omega

theorem jointCount_le_of_reportsFaithfully {server : Server} {flags : BitVec 8} {payload : List Byte}
    (h : server.ReportsFaithfully ⟨flags, .getStatus, payload⟩) : server.robot.jointCount ≤ 65534 := by
  obtain ⟨response, report, status, hdecode, -⟩ := h
  obtain ⟨hlength, hwell⟩ := FrameCodec.length_payload_of_decode_encode hdecode
  rw [length_payload_getStatus] at hlength
  have hstate := server.controller.state.le_length_toString
  have hcap : FrameCodec.maxPayloadSize.toNat = 1048576 := rfl
  rw [FrameCodec.WellFormed, hlength, hcap] at hwell
  omega

/-- A `GetStatus` request is answered faithfully exactly by a robot whose joints fit the frame. -/
theorem reportsFaithfully_iff (server : Server) (flags : BitVec 8) (payload : List Byte) :
    server.ReportsFaithfully ⟨flags, .getStatus, payload⟩ ↔ server.robot.jointCount ≤ 65534 := by
  constructor
  · exact jointCount_le_of_reportsFaithfully
  · intro hcount
    have hwell : FrameCodec.WellFormed (server.dispatch ⟨flags, .getStatus, payload⟩).2 :=
      length_statusPayload_le hcount
    have hdecode := FrameCodec.decode_encode hwell []
    rw [List.append_nil, ← FrameCodec.length_encode] at hdecode
    exact ⟨_, encodeStatusPayload server.statusPayload, server.statusPayload, hdecode, rfl,
      decodeStatusPayload_statusPayload hcount, rfl, rfl⟩

/-- One joint more, and the client takes the answer for malformed. -/
theorem not_reportsFaithfully :
    ¬∀ server flags payload, ReportsFaithfully server ⟨flags, .getStatus, payload⟩ := by
  intro hall
  have hcount := jointCount_le_of_reportsFaithfully
    (hall (bootScenario 65535 (validate_scenario (by decide))) 0 [])
  have hjoints : (bootScenario 65535 (validate_scenario (by decide))).robot.jointCount = 65535 := by
    rw [Robot.jointCount, bootScenario, boot, Robot.ofConfig, List.length_map, scenario,
      List.length_replicate]
  rw [hjoints] at hcount
  exact absurd hcount (by decide)

end Server
end RobotEmu
