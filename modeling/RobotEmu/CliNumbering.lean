import RobotEmu.CliCommand
import RobotEmu.CliExecute
import RobotEmu.CliFormat

/-! The numbers that joints have at the command line: on the rows of the status table, and as the argument
of `move-joint`. Both are followed through the client, the wire and the dispatcher to an index. -/

namespace RobotEmu
namespace Server

/-- A command carried out: its request crosses the wire in bytes and is dispatched. -/
def serve (server : Server) (command : Command) : Option (Server × Frame) :=
  match FrameCodec.decode (FrameCodec.encode (buildRequestFrame command)) with
  | .ok decoded => some (server.dispatch decoded.frame)
  | .error _ => none

/-- The row labelled `Jk` of the table that a client prints shows the joint of index `i`. -/
def RowShows (server : Server) (k i : Nat) : Prop :=
  ∃ answer report joint, server.serve { kind := .status } = some answer ∧
    execute { kind := .status } true [FrameCodec.encode answer.2] = .ok ⟨.ok, some report⟩ ∧
    server.robot.joints[i]? = some joint ∧
    (statusRows report)[i]? = some (statusRow i ⟨joint.state.position, joint.state.velocity⟩) ∧
    Labelled k (statusRow i ⟨joint.state.position, joint.state.velocity⟩)

/-- The command line changes the target of the joint of index `i`. -/
def TargetChanges (server : Server) (args : List (List Byte)) (i : Nat) : Prop :=
  ∃ invocation answer, parseArgs args = .ok invocation ∧ server.serve invocation.command = some answer ∧
    answer.1.robot.joints[i]?.map (·.targetPosition) ≠ server.robot.joints[i]?.map (·.targetPosition)

theorem serve_eq (server : Server) (command : Command) :
    server.serve command = some (server.dispatch (buildRequestFrame command)) := by
  have hdecode := FrameCodec.decode_encode (wellFormed_buildRequestFrame command) []
  rw [List.append_nil] at hdecode
  rw [serve, hdecode]

/-! ### The rows -/

/-- A client that asks for the status gets the report that the server makes of itself. -/
theorem execute_status {server : Server} (h : server.robot.jointCount ≤ maxJointCount) {chunks : List (List Byte)}
    (hchunks : chunks.flatten = FrameCodec.encode (server.dispatch (buildRequestFrame { kind := .status })).2) :
    execute { kind := .status } true chunks = .ok ⟨.ok, some server.statusPayload⟩ := by
  have hok : (server.dispatch (buildRequestFrame { kind := .status })).2 =
      okResponse CommandKind.status.toCommandType (server.okExtra { kind := .status }) := rfl
  rw [execute_of_flatten _ (wellFormed_response h _) hchunks, hok, interpretResponse_ok h]
  rfl

/-- The row labelled `Jk` shows the joint before the one of index `k`. -/
theorem rowShows_iff {server : Server} (h : server.robot.jointCount ≤ maxJointCount) {k i : Nat} :
    server.RowShows k i ↔ i < server.robot.jointCount ∧ i + 1 = k := by
  constructor
  · rintro ⟨answer, report, joint, -, -, hjoint, -, hlabel⟩
    exact ⟨(List.getElem?_eq_some_iff.1 hjoint).1, labelled_statusRow_iff.1 hlabel⟩
  · rintro ⟨hlt, hk⟩
    have hwhole (answer : Frame) : [FrameCodec.encode answer].flatten = FrameCodec.encode answer := by
      rw [List.flatten_cons, List.flatten_nil, List.append_nil]
    refine ⟨_, server.statusPayload, server.robot.joint i hlt, serve_eq server _, execute_status h (hwhole _),
      List.getElem?_eq_getElem hlt, ?_, labelled_statusRow_iff.2 hk⟩
    rw [statusRows, List.getElem?_mapIdx, statusPayload, List.getElem?_map, List.getElem?_eq_getElem hlt]
    rfl

/-! ### The target -/

/-- A request that decodes sets the target of the joint it names, if there is one and it takes the target. -/
theorem joints_handleMoveJoint {server : Server} {request : Frame} {payload : MoveJointPayload}
    (h : decodeMoveJointPayload request.payload = .ok payload) :
    (server.handleMoveJoint request).1.robot.joints = server.robot.joints.modify payload.jointIndex.toNat
      fun joint => (joint.setTargetPosition payload.targetRadians).2 := by
  rw [handleMoveJoint, h]
  dsimp only
  by_cases hindex : payload.jointIndex.toNat < server.robot.jointCount
  · rw [dif_pos hindex, List.modify_eq_set_get _ hindex]
    cases ((server.robot.joint payload.jointIndex.toNat hindex).setTargetPosition payload.targetRadians).1 with
    | error e => rfl
    | ok u =>
        dsimp only
        split_ifs <;> rfl
  · rw [dif_neg hindex, List.modify_eq_self (Nat.le_of_not_lt hindex)]

/-- An angle of the command line, as the client sends it. -/
def radians (targetDegrees : Binary64) : Binary64 := targetDegrees * Numbers.pi / Binary64.ofInt 180

/-- The joint of index `i` takes a target that it does not have yet. -/
def Takes (server : Server) (i : Nat) (target : Binary64) : Prop :=
  ∃ joint, server.robot.joints[i]? = some joint ∧
    (joint.setTargetPosition target).2.targetPosition ≠ joint.targetPosition

theorem buildRequestFrame_moveJoint (jointIndex : BitVec 8) (targetDegrees : Binary64) :
    buildRequestFrame ⟨.moveJoint, jointIndex, targetDegrees⟩ =
      ⟨0, .moveJoint, encodeMoveJointPayload ⟨jointIndex, radians targetDegrees⟩⟩ := by
  rw [buildRequestFrame, radians]
  dsimp only
  rw [if_pos rfl, CommandKind.toCommandType]

theorem dispatch_moveJoint (server : Server) (jointIndex : BitVec 8) (targetDegrees : Binary64) :
    server.dispatch (buildRequestFrame ⟨.moveJoint, jointIndex, targetDegrees⟩) =
      server.handleMoveJoint ⟨0, .moveJoint, encodeMoveJointPayload ⟨jointIndex, radians targetDegrees⟩⟩ := by
  rw [buildRequestFrame_moveJoint]
  rfl

theorem joints_dispatch_moveJoint (server : Server) (jointIndex : BitVec 8) (targetDegrees : Binary64) :
    (server.dispatch (buildRequestFrame ⟨.moveJoint, jointIndex, targetDegrees⟩)).1.robot.joints =
      server.robot.joints.modify jointIndex.toNat
        fun joint => (joint.setTargetPosition (radians targetDegrees)).2 := by
  rw [dispatch_moveJoint, joints_handleMoveJoint (decodeMoveJointPayload_encoded _)]

theorem targetPosition_ne_iff (server : Server) (jointIndex : BitVec 8) (targetDegrees : Binary64) (i : Nat) :
    (server.dispatch (buildRequestFrame ⟨.moveJoint, jointIndex, targetDegrees⟩)).1.robot.joints[i]?.map
        (·.targetPosition) ≠ server.robot.joints[i]?.map (·.targetPosition) ↔
      i = jointIndex.toNat ∧ server.Takes i (radians targetDegrees) := by
  rw [joints_dispatch_moveJoint, List.getElem?_modify, Takes]
  by_cases hi : i = jointIndex.toNat
  · subst hi
    cases server.robot.joints[jointIndex.toNat]? <;> simp
  · cases server.robot.joints[i]? <;> simp [hi, Ne.symm hi]

/-- `move-joint k` is for the joint of index `k`: no other target changes, and that one does if the address and
the angle are accepted and the joint takes the angle. -/
theorem targetChanges_iff {server : Server} {hostPort index degrees : List Byte} (rest : List (List Byte))
    {jointIndex : BitVec 8} (hindex : IsDecimal index jointIndex.toNat) {i : Nat} :
    server.TargetChanges (hostPort :: bytesOf "move-joint" :: index :: degrees :: rest) i ↔
      i = jointIndex.toNat ∧ ∃ address targetDegrees, splitHostPort hostPort = .ok address ∧
        parseDouble degrees = .ok targetDegrees ∧ server.Takes i (radians targetDegrees) := by
  rw [TargetChanges, parseArgs, parseCommand_of_index rest hindex]
  cases haddress : splitHostPort hostPort with
  | error e => simp [bind, Except.bind]
  | ok address =>
      cases hdegrees : parseDouble degrees with
      | error e => simp [bind, Except.bind, Except.map]
      | ok targetDegrees =>
          constructor
          · rintro ⟨invocation, answer, hparse, hserve, hne⟩
            obtain rfl := Except.ok.inj hparse
            rw [serve_eq] at hserve
            obtain rfl := Option.some.inj hserve
            obtain ⟨hi, htakes⟩ := (server.targetPosition_ne_iff jointIndex targetDegrees i).1 hne
            exact ⟨hi, address, targetDegrees, rfl, rfl, htakes⟩
          · rintro ⟨hi, address', targetDegrees', -, hok, htakes⟩
            obtain rfl := Except.ok.inj hok
            exact ⟨_, _, rfl, server.serve_eq _, (server.targetPosition_ne_iff _ _ i).2 ⟨hi, htakes⟩⟩

/-- The joint shown on the row `Jk` is the one whose target the command line changes. -/
def NumberedAlike (server : Server) (k : Nat) (args : List (List Byte)) : Prop :=
  ∃ i, server.RowShows k i ∧ server.TargetChanges args i

/-- The row `Jk` shows the joint of index `k - 1`, and `move-joint k` is for the joint of index `k`, however the
number is written. They are never the same joint. -/
theorem jointNumbering {server : Server} (hcount : server.robot.jointCount ≤ 255) {k : Nat}
    (hk : k ≤ server.robot.jointCount) {hostPort index degrees : List Byte} (rest : List (List Byte))
    (hindex : IsDecimal index k) :
    (∀ i, server.RowShows k i ↔ i + 1 = k) ∧
    (∀ i, server.TargetChanges (hostPort :: bytesOf "move-joint" :: index :: degrees :: rest) i ↔
      i = k ∧ ∃ address targetDegrees, splitHostPort hostPort = .ok address ∧
        parseDouble degrees = .ok targetDegrees ∧ server.Takes k (radians targetDegrees)) ∧
    ¬server.NumberedAlike k (hostPort :: bytesOf "move-joint" :: index :: degrees :: rest) := by
  have hrow : ∀ i, server.RowShows k i ↔ i + 1 = k := by
    intro i
    rw [rowShows_iff (hcount.trans (by decide))]
    exact and_iff_right_of_imp fun hi => by omega
  have hnat : (BitVec.ofNat 8 k).toNat = k := by
    rw [BitVec.toNat_ofNat, Nat.mod_eq_of_lt (by omega)]
  have htarget := fun i => @targetChanges_iff server hostPort index degrees rest (BitVec.ofNat 8 k)
    (by rwa [hnat]) i
  simp only [hnat] at htarget
  refine ⟨hrow, fun i => ?_, ?_⟩
  · rw [htarget]
    exact and_congr_right fun hi => by rw [hi]
  · rintro ⟨i, hshows, hchanges⟩
    have hshown := (hrow i).1 hshows
    have hchanged := ((htarget i).1 hchanges).1
    omega

/-- The scenario of `main` with the servos on. -/
def enabledScenario : Server := (bootScenario 6 (by decide)).next (plainRequest .enable)

def moveJointOne : List (List Byte) :=
  [bytesOf "127.0.0.1:9000", bytesOf "move-joint", bytesOf "1", bytesOf "90"]

/-- The first joint of six, moved by its label. -/
theorem jointNumbering_first : ¬enabledScenario.NumberedAlike 1 moveJointOne :=
  (jointNumbering (by decide) (by decide) [] ⟨by decide, by decide, by decide⟩).2.2

/-- The row `J1` shows the first joint, and `move-joint 1 90` sets the target of the second. -/
theorem not_numberedAlike : enabledScenario.RowShows 1 0 ∧ enabledScenario.TargetChanges moveJointOne 1 ∧
    ¬enabledScenario.NumberedAlike 1 moveJointOne := by
  have hcount : enabledScenario.robot.jointCount ≤ maxJointCount := by decide
  have hindex : IsDecimal (bytesOf "1") (1 : BitVec 8).toNat := ⟨by decide, by decide, by decide⟩
  refine ⟨(rowShows_iff hcount).2 ⟨by decide, rfl⟩, (targetChanges_iff [] hindex).2 ⟨rfl, ?_⟩, ?_⟩
  · refine ⟨(bytesOf "127.0.0.1", 9000), Binary64.ofInt 90, by decide, by decide +kernel, ?_⟩
    exact ⟨_, rfl, by decide +kernel⟩
  · rintro ⟨i, hshows, hchanges⟩
    have hshown := ((rowShows_iff hcount).1 hshows).2
    obtain rfl := ((targetChanges_iff [] hindex).1 hchanges).1
    exact absurd hshown (by decide)

end Server
end RobotEmu
