import RobotEmu.RosHardwareInterface

/-! Runs of the bridge. The controllers read and command the joints through pointers into its buffers, at any time,
and the controller manager calls `read` and `write`, while the server and the network go on as they like. -/

namespace RobotEmu

open Machine

namespace Server

/-- Whatever the turns of other threads keep, they keep together. -/
theorem others_invariant {I : Server → Prop}
    (hother : ∀ server thread, I server → I (server.next (OtherThread.item thread))) {server : Server}
    (h : I server) (threads : List OtherThread) : I (server.others threads) := by
  induction threads generalizing server with
  | nil => exact h
  | cons thread threads ih => exact ih (hother server thread h)

/-- Whatever the turns of other threads and the request keep, a call of the client keeps. -/
theorem exchange_invariant {I : Server → Prop}
    (hother : ∀ server thread, I server → I (server.next (OtherThread.item thread)))
    {command : Command} (hrequest : ∀ server, I server → I (server.next (.request (buildRequestFrame command))))
    {server : Server} (h : I server) (delivery : Delivery) : I (server.exchange command delivery).1 := by
  have hothers := others_invariant hother h delivery.others
  rw [exchange, serve_eq]
  cases delivery.arrives && delivery.sent with
  | false => exact hothers
  | true => exact hrequest _ hothers

end Server

theorem writeFrom_invariant {I : Server → Prop}
    (hother : ∀ server thread, I server → I (server.next (OtherThread.item thread)))
    {commands : List Binary64} (hrequest : ∀ commanded ∈ commands, ∀ index server, I server →
      I (server.next (.request (buildRequestFrame (moveCommand index commanded)))))
    (deliveries : Nat → Delivery) (index : Nat) {server : Server} (h : I server) :
    I (writeFrom server deliveries index commands).1 := by
  induction commands generalizing index server with
  | nil => exact h
  | cons commanded commands ih =>
      have hexchange := Server.exchange_invariant hother (hrequest commanded List.mem_cons_self index) h
        (deliveries index)
      rw [writeFrom]
      generalize server.exchange (moveCommand index commanded) (deliveries index) = exchanged at hexchange
      obtain ⟨after, result⟩ := exchanged
      cases result with
      | error e => exact hexchange
      | ok outcome => exact ih (fun commanded hmem => hrequest commanded (List.mem_cons_of_mem _ hmem)) _ hexchange

/-! ### `read` -/

theorem copyInto_nil (buffer : List Binary64) : copyInto buffer [] = buffer := by
  cases buffer <;> rfl

theorem length_copyInto (buffer values : List Binary64) : (copyInto buffer values).length = buffer.length := by
  induction buffer generalizing values with
  | nil => cases values <;> rfl
  | cons old buffer ih =>
      cases values with
      | nil => rfl
      | cons value values => exact congrArg Nat.succ (ih values)

theorem copyInto_copyInto (buffer : List Binary64) {earlier values : List Binary64}
    (h : earlier.length ≤ values.length) : copyInto (copyInto buffer earlier) values = copyInto buffer values := by
  induction buffer generalizing earlier values with
  | nil => cases earlier <;> cases values <;> rfl
  | cons old buffer ih =>
      cases values with
      | nil =>
          rw [List.length_nil, Nat.le_zero, List.length_eq_zero_iff] at h
          rw [h]
          rfl
      | cons value values =>
          cases earlier with
          | nil => rfl
          | cons first earlier => exact congrArg (List.cons value) (ih (Nat.le_of_succ_le_succ h))

theorem getElem?_copyInto (buffer values : List Binary64) (i : Nat) :
    (copyInto buffer values)[i]? = (buffer[i]?).map fun old => (values[i]?).getD old := by
  induction buffer generalizing values i with
  | nil => cases values <;> rfl
  | cons old buffer ih =>
      cases values with
      | nil => cases h : (old :: buffer)[i]? <;> simp [copyInto, h]
      | cons value values =>
          cases i with
          | zero => rfl
          | succ i => simpa [copyInto] using ih values i

namespace RobotEmulatorHardwareInterface

/-- **A read is all or nothing.** It fills the buffers, from the state of the server at one moment, exactly if there is
a client and the whole report gets back; nothing is changed otherwise. -/
theorem read_eq (interface : RobotEmulatorHardwareInterface) {server : Server} (delivery : Delivery)
    (h : server.robot.jointCount ≤ 65534) :
    interface.read server delivery =
      if interface.client = false then (interface, server, .error)
      else if delivery.Completes (FrameCodec.headerSize + 1 +
          (encodeStatusPayload (server.others delivery.others).statusPayload).length)
        then (interface.fill (server.others delivery.others).statusPayload.joints, server.others delivery.others, .ok)
      else (interface, server.others delivery.others, .error) := by
  have hcount : (server.others delivery.others).robot.jointCount ≤ Server.maxJointCount := by
    rw [← Server.length_settings, Server.settings_others, Server.length_settings]
    exact h
  rw [read]
  cases interface.client with
  | false => rfl
  | true =>
      rw [Bool.not_true, if_neg Bool.false_ne_true, if_neg Bool.false_ne_true.symm]
      cases harrives : delivery.arrives && delivery.sent with
      | false =>
          rw [server.exchange_of_lost _ harrives, if_neg fun hall => Bool.false_ne_true (harrives.symm.trans hall.1)]
      | true =>
          have hlength : (FrameCodec.encode ((server.others delivery.others).dispatch
              (buildRequestFrame { kind := .status })).2).length = FrameCodec.headerSize + 1 +
                (encodeStatusPayload (server.others delivery.others).statusPayload).length := by
            rw [FrameCodec.length_encode, Nat.add_assoc, Nat.add_comm 1]
            rfl
          rw [server.exchange_of_arrives _ harrives (Server.wellFormed_response hcount _), hlength]
          dsimp only
          by_cases hsum : FrameCodec.headerSize + 1 +
              (encodeStatusPayload (server.others delivery.others).statusPayload).length ≤ delivery.receives.sum
          · have hok : interpretResponse { kind := .status } ((server.others delivery.others).dispatch
                (buildRequestFrame { kind := .status })).2 =
                  .ok ⟨.ok, some (server.others delivery.others).statusPayload⟩ :=
              interpretResponse_ok hcount { kind := .status }
            rw [if_pos hsum, hok, if_pos (show delivery.Completes _ from ⟨harrives, hsum⟩)]
            rfl
          · rw [if_neg hsum, if_neg fun hall : delivery.Completes _ => hsum hall.2]
            rfl

theorem exists_fill_read (interface : RobotEmulatorHardwareInterface) (server : Server) (delivery : Delivery) :
    ∃ joints, (interface.read server delivery).1 = interface.fill joints := by
  have hnone : interface = interface.fill [] := by
    rw [fill, List.map_nil, List.map_nil, copyInto_nil, copyInto_nil]
  rw [read]
  split_ifs
  · exact ⟨[], hnone⟩
  · dsimp only
    split
    · exact ⟨_, rfl⟩
    · exact ⟨[], hnone⟩

end RobotEmulatorHardwareInterface

/-! ### Runs -/

/-- The bridge and the server it talks to. -/
structure Bridge where
  interface : RobotEmulatorHardwareInterface
  server : Server

inductive BridgeEvent where
  | onActivate (connected : Bool)
  | onDeactivate
  | read (delivery : Delivery)
  | write (deliveries : Nat → Delivery)
  /-- A controller stores a position behind the pointer handed out for a joint. -/
  | command (index : Nat) (position : Binary64)
  | other (thread : OtherThread)

namespace Bridge

/-- A bridge initialised for so many joints, beside a server. -/
def start (jointCount : Nat) (server : Server) : Bridge :=
  ⟨(RobotEmulatorHardwareInterface.onInit {} .success jointCount).1, server⟩

def next (bridge : Bridge) : BridgeEvent → Bridge
  | .onActivate connected => { bridge with interface := (bridge.interface.onActivate connected).1 }
  | .onDeactivate => { bridge with interface := bridge.interface.onDeactivate.1 }
  | .read delivery =>
      ⟨(bridge.interface.read bridge.server delivery).1, (bridge.interface.read bridge.server delivery).2.1⟩
  | .write deliveries => { bridge with server := (bridge.interface.write bridge.server deliveries).1 }
  | .command index position =>
      { bridge with interface := { bridge.interface with
          hwCommandsPosition := bridge.interface.hwCommandsPosition.set index position } }
  | .other thread => { bridge with server := bridge.server.next thread.item }

/-- The event is a `read` that succeeds. -/
def Reads (bridge : Bridge) : BridgeEvent → Prop
  | .read delivery => (bridge.interface.read bridge.server delivery).2.2 = .ok
  | _ => False

/-- The buffers show this state of the server, as far as it has joints, and zeros behind. -/
def Shows (size : Nat) (server : Server) (shown : List Binary64 × List Binary64) : Prop :=
  shown = (copyInto (List.replicate size (Binary64.ofInt 0)) (server.robot.joints.map (·.state.position)),
    copyInto (List.replicate size (Binary64.ofInt 0)) (server.robot.joints.map (·.state.velocity)))

def shown (bridge : Bridge) : List Binary64 × List Binary64 :=
  (bridge.interface.hwPositions, bridge.interface.hwVelocities)

/-- What every event keeps: the sizes of the buffers and of the robot. -/
structure Sized (size count : Nat) (bridge : Bridge) : Prop where
  positions : bridge.interface.hwPositions.length = size
  velocities : bridge.interface.hwVelocities.length = size
  commands : bridge.interface.hwCommandsPosition.length = size
  jointCount : bridge.server.robot.jointCount = count

/-- The buffers are as some report has left them, over zeros. -/
structure Filled (size count : Nat) (bridge : Bridge) : Prop extends Sized size count bridge where
  filled : ∃ shownPositions shownVelocities : List Binary64, shownPositions.length ≤ count ∧
    shownVelocities.length ≤ count ∧ bridge.shown = (copyInto (List.replicate size (Binary64.ofInt 0)) shownPositions,
      copyInto (List.replicate size (Binary64.ofInt 0)) shownVelocities)

theorem shown_start {size : Nat} (h : size ≤ 255) (server : Server) :
    (start size server).shown =
      (List.replicate size (Binary64.ofInt 0), List.replicate size (Binary64.ofInt 0)) := by
  rw [start, RobotEmulatorHardwareInterface.onInit, if_neg (by decide), if_neg (by omega)]
  rfl

theorem filled_start {size : Nat} (h : size ≤ 255) (server : Server) :
    Filled size server.robot.jointCount (start size server) := by
  refine ⟨?_, [], [], Nat.zero_le _, Nat.zero_le _, ?_⟩
  · rw [start, RobotEmulatorHardwareInterface.onInit, if_neg (by decide), if_neg (by omega)]
    exact ⟨List.length_replicate, List.length_replicate, List.length_replicate, rfl⟩
  · rw [shown_start h, copyInto_nil]

/-- A read that succeeds leaves the buffers as its report has them, whatever they held. -/
theorem Filled.read {size jointCount : Nat} {bridge : Bridge} (h : Filled size jointCount bridge)
    (hcount : jointCount ≤ 65534) {delivery : Delivery} (hreads : bridge.Reads (.read delivery)) :
    Shows size (bridge.server.others delivery.others) (bridge.next (.read delivery)).shown ∧
      (bridge.next (.read delivery)).server = bridge.server.others delivery.others := by
  obtain ⟨positions, velocities, hpositions, hvelocities, hshown⟩ := h.filled
  have hothers : (bridge.server.others delivery.others).robot.jointCount = jointCount := by
    rw [← Server.length_settings, Server.settings_others, Server.length_settings]
    exact h.jointCount
  have hread := bridge.interface.read_eq delivery (h.jointCount.trans_le hcount)
  rw [Reads, hread] at hreads
  rw [next, hread]
  split_ifs at hreads ⊢ with hclient hcompletes
  refine ⟨?_, rfl⟩
  rw [shown, Prod.mk.injEq] at hshown
  rw [Shows, shown, RobotEmulatorHardwareInterface.fill, hshown.1, hshown.2, copyInto_copyInto, copyInto_copyInto,
    Server.statusPayload, List.map_map, List.map_map]
  · rfl
  · rw [List.length_map, Server.length_statusPayload_joints, hothers]
    exact hvelocities
  · rw [List.length_map, Server.length_statusPayload_joints, hothers]
    exact hpositions

/-- Nothing but a read that succeeds changes what the buffers show. -/
theorem shown_next {bridge : Bridge} {event : BridgeEvent} (hcount : bridge.server.robot.jointCount ≤ 65534)
    (h : ¬bridge.Reads event) : (bridge.next event).shown = bridge.shown := by
  cases event with
  | onActivate connected =>
      rw [next, RobotEmulatorHardwareInterface.onActivate]
      split_ifs <;> rfl
  | onDeactivate | write deliveries | command index position | other thread => rfl
  | read delivery =>
      have hread := bridge.interface.read_eq delivery hcount
      rw [Reads, hread] at h
      rw [next, hread]
      split_ifs at h ⊢ with hclient hcompletes
      · rfl
      · exact absurd rfl h
      · rfl

/-- Whatever the turns of the threads and the requests of `write` keep, an event keeps. -/
theorem server_next_invariant {I : Server → Prop}
    (hother : ∀ server thread, I server → I (server.next (OtherThread.item thread))) {bridge : Bridge}
    (hrequest : ∀ commanded ∈ bridge.interface.hwCommandsPosition, ∀ index server, I server →
      I (server.next (.request (buildRequestFrame (moveCommand index commanded)))))
    (h : I bridge.server) (event : BridgeEvent) : I (bridge.next event).server := by
  cases event with
  | onActivate connected | onDeactivate | command index position => exact h
  | other thread => exact hother _ thread h
  | read delivery =>
      have hstatus : ∀ server : Server, I server → I (server.next (.request (buildRequestFrame { kind := .status }))) :=
        fun _ hserver => hserver
      have hexchange := Server.exchange_invariant hother hstatus h delivery
      rw [next, RobotEmulatorHardwareInterface.read]
      split_ifs
      · exact h
      · dsimp only
        split <;> exact hexchange
  | write deliveries =>
      rw [next, RobotEmulatorHardwareInterface.write]
      split_ifs
      · exact h
      · exact writeFrom_invariant hother hrequest deliveries 0 h

theorem Sized.next {size count : Nat} {bridge : Bridge} (h : Sized size count bridge) (event : BridgeEvent) :
    Sized size count (bridge.next event) := by
  have hserver : (bridge.next event).server.robot.jointCount = count := by
    apply server_next_invariant (I := fun server => server.robot.jointCount = count)
    · exact fun server thread hcount => (server.jointCount_next thread.item).trans hcount
    · exact fun commanded _ index server hcount => (server.jointCount_next _).trans hcount
    · exact h.jointCount
  cases event with
  | onActivate connected =>
      rw [Bridge.next, RobotEmulatorHardwareInterface.onActivate]
      split_ifs
      · exact h
      · exact ⟨h.positions, h.velocities, h.commands, h.jointCount⟩
  | onDeactivate => exact ⟨h.positions, h.velocities, h.commands, h.jointCount⟩
  | other thread | write deliveries => exact ⟨h.positions, h.velocities, h.commands, hserver⟩
  | command index position => exact ⟨h.positions, h.velocities, List.length_set.trans h.commands, h.jointCount⟩
  | read delivery =>
      obtain ⟨joints, hfill⟩ := bridge.interface.exists_fill_read bridge.server delivery
      rw [Bridge.next, hfill]
      exact ⟨(length_copyInto _ _).trans h.positions, (length_copyInto _ _).trans h.velocities, h.commands, hserver⟩

theorem Filled.next {size count : Nat} {bridge : Bridge} (h : Filled size count bridge) (hcount : count ≤ 65534)
    (event : BridgeEvent) : Filled size count (bridge.next event) := by
  refine ⟨h.toSized.next event, ?_⟩
  by_cases hreads : bridge.Reads event
  · cases event with
    | read delivery =>
        have hothers : (bridge.server.others delivery.others).robot.joints.length = count := by
          have hnext := (h.toSized.next (.read delivery)).jointCount
          rwa [(h.read hcount hreads).2] at hnext
        refine ⟨_, _, ?_, ?_, (h.read hcount hreads).1⟩
        · rw [List.length_map, hothers]
        · rw [List.length_map, hothers]
    | onActivate connected | onDeactivate | write deliveries | command index position | other thread =>
        exact hreads.elim
  · rw [shown_next (h.jointCount.trans_le hcount) hreads]
    exact h.filled

/-- **What ROS sees.** Whatever the network, the server's threads and the controllers do, the buffers keep their sizes,
so that the pointers into them stay good, and they show zeros, or all the joints as they were at one moment: the one
at which the last `read` that succeeded was answered. -/
theorem shown_run {size : Nat} (hsize : size ≤ 255) (server : Server) (hcount : server.robot.jointCount ≤ 65534)
    (events : List BridgeEvent) : Sized size server.robot.jointCount (run next (start size server) events) ∧
      ((Along next (fun bridge event => ¬bridge.Reads event) (start size server) events ∧
          (run next (start size server) events).shown =
            (List.replicate size (Binary64.ofInt 0), List.replicate size (Binary64.ofInt 0))) ∨
        ∃ before delivery later, events = before ++ .read delivery :: later ∧
          (run next (start size server) before).Reads (.read delivery) ∧
          Along next (fun bridge event => ¬bridge.Reads event)
            ((run next (start size server) before).next (.read delivery)) later ∧
          Shows size ((run next (start size server) before).server.others delivery.others)
            (run next (start size server) events).shown) := by
  have hinv : ∀ bridge event, Filled size server.robot.jointCount bridge →
      Filled size server.robot.jointCount (bridge.next event) :=
    fun bridge event h => h.next hcount event
  have hstart := filled_start hsize server
  refine ⟨(run_invariant hinv hstart events).toSized, ?_⟩
  rcases last_change hinv (fun bridge event h hnot => shown_next (h.jointCount.trans_le hcount) hnot) hstart events with
    ⟨hnone, hshown⟩ | ⟨before, event, later, hsplit, hreads, hnone, hshown⟩
  · exact .inl ⟨hnone, hshown.trans (shown_start hsize server)⟩
  · cases event with
    | read delivery =>
        refine .inr ⟨before, delivery, later, hsplit, hreads, hnone, ?_⟩
        rw [hshown]
        exact ((run_invariant hinv hstart before).read hcount hreads).1
    | onActivate connected | onDeactivate | write deliveries | command index position | other thread =>
        exact hreads.elim

/-- The bridge to the six joints of `main`, connected, after one report has come back. -/
theorem shown_run_read :
    Sized 6 6 (run next (start 6 Server.enabledScenario) [.onActivate true, .read ⟨[.control], true, true, [4096]⟩]) ∧
      ((Along next (fun bridge event => ¬bridge.Reads event) (start 6 Server.enabledScenario)
            [.onActivate true, .read ⟨[.control], true, true, [4096]⟩] ∧
          (run next (start 6 Server.enabledScenario)
              [.onActivate true, .read ⟨[.control], true, true, [4096]⟩]).shown =
            (List.replicate 6 (Binary64.ofInt 0), List.replicate 6 (Binary64.ofInt 0))) ∨
        ∃ before delivery later,
          [.onActivate true, .read ⟨[.control], true, true, [4096]⟩] = before ++ .read delivery :: later ∧
          (run next (start 6 Server.enabledScenario) before).Reads (.read delivery) ∧
          Along next (fun bridge event => ¬bridge.Reads event)
            ((run next (start 6 Server.enabledScenario) before).next (.read delivery)) later ∧
          Shows 6 ((run next (start 6 Server.enabledScenario) before).server.others delivery.others)
            (run next (start 6 Server.enabledScenario)
              [.onActivate true, .read ⟨[.control], true, true, [4096]⟩]).shown) :=
  shown_run (by decide) Server.enabledScenario (by decide) _

end Bridge

/-! ### The envelope -/

namespace Server

theorem Tame.next_other {limits : List (JointLimits Binary64)} {server : Server} (h : Tame limits server)
    (thread : OtherThread) : Tame limits (server.next thread.item) := by
  apply h.next
  cases thread <;> exact id

/-- A commanded position that is a number leads to a target that is one. -/
theorem Tame.next_moveCommand {limits : List (JointLimits Binary64)} {server : Server} (h : Tame limits server)
    {commanded : Binary64} (hnumber : ¬commanded.IsNaN) (index : Nat) :
    Tame limits (server.next (.request (buildRequestFrame (moveCommand index commanded)))) := by
  apply h.next
  have hframe : buildRequestFrame (moveCommand index commanded) =
      ⟨0, .moveJoint, encodeMoveJointPayload ⟨BitVec.ofNat 8 index, radians (toDegrees commanded)⟩⟩ :=
    buildRequestFrame_moveJoint _ _
  rw [hframe]
  exact not_movesToNaN_moveRequest (not_isNaN_radians_toDegrees hnumber)

end Server

/-- The commanded position is a number. -/
def BridgeEvent.Sensible : BridgeEvent → Prop
  | .command _ position => ¬position.IsNaN
  | _ => True

namespace Bridge

/-- The values in the buffers are within the limits of the joints they are shown for. -/
def ShownWithin (limits : List (JointLimits Binary64)) (interface : RobotEmulatorHardwareInterface) : Prop :=
  ∀ (i : Nat) (bound : JointLimits Binary64), limits[i]? = some bound →
    (∀ position ∈ interface.hwPositions[i]?, bound.minPosition ≤ position ∧ position ≤ bound.maxPosition) ∧
    ∀ velocity ∈ interface.hwVelocities[i]?, -bound.maxVelocity ≤ velocity ∧ velocity ≤ bound.maxVelocity

/-- What is read within the limits of a tame server is shown within them. -/
theorem ShownWithin.fill {limits : List (JointLimits Binary64)} {interface : RobotEmulatorHardwareInterface}
    (h : ShownWithin limits interface) {server : Server} (hserver : Server.Tame limits server) :
    ShownWithin limits (interface.fill server.statusPayload.joints) := by
  intro i bound hbound
  obtain ⟨hposition, hvelocity⟩ := h i bound hbound
  rw [← hserver.limits_eq, Server.limits, List.getElem?_map, Option.map_eq_some_iff] at hbound
  obtain ⟨joint, hjoint, rfl⟩ := hbound
  have henv := hserver.inEnvelope joint (List.mem_of_getElem? hjoint)
  rw [RobotEmulatorHardwareInterface.fill, getElem?_copyInto, getElem?_copyInto, Server.statusPayload, List.map_map,
    List.map_map, List.getElem?_map, List.getElem?_map, hjoint]
  refine ⟨fun position hmem => ?_, fun velocity hmem => ?_⟩
  · obtain ⟨old, -, rfl⟩ := Option.map_eq_some_iff.1 hmem
    exact henv.1.1
  · obtain ⟨old, -, rfl⟩ := Option.map_eq_some_iff.1 hmem
    exact henv.2

/-- What sensible events keep. -/
structure Guarded (limits : List (JointLimits Binary64)) (bridge : Bridge) : Prop where
  server : Server.Tame limits bridge.server
  shown : ShownWithin limits bridge.interface
  commands : ∀ commanded ∈ bridge.interface.hwCommandsPosition, ¬commanded.IsNaN
  fits : bridge.server.robot.jointCount ≤ 65534

theorem Guarded.start {limits : List (JointLimits Binary64)} {server : Server} (h : Server.Tame limits server)
    (hcount : server.robot.jointCount ≤ 65534) {size : Nat} (hsize : size ≤ 255) :
    Guarded limits (start size server) := by
  have hzero : ∀ value ∈ List.replicate size (Binary64.ofInt 0), value = Binary64.ofInt 0 :=
    fun value hmem => List.eq_of_mem_replicate hmem
  rw [Bridge.start, RobotEmulatorHardwareInterface.onInit, if_neg (by decide), if_neg (by omega)]
  refine ⟨h, fun i bound hbound => ?_, fun commanded hmem => ?_, hcount⟩
  · rw [← h.limits_eq, Server.limits, List.getElem?_map, Option.map_eq_some_iff] at hbound
    obtain ⟨joint, hjoint, rfl⟩ := hbound
    have hsane := h.sane.joints joint (List.mem_of_getElem? hjoint)
    refine ⟨fun position hmem => ?_, fun velocity hmem => ?_⟩
    · rw [hzero position (List.mem_of_getElem? hmem)]
      exact hsane.bounded.spanZero
    · obtain ⟨hbelow, habove, -⟩ := Binary64.neg_le_zero_le hsane.zero_lt_maxVelocity
      rw [hzero velocity (List.mem_of_getElem? hmem)]
      exact ⟨hbelow, habove⟩
  · rw [hzero commanded hmem]
    exact Binary64.not_isNaN_ofInt 0

theorem Guarded.next {limits : List (JointLimits Binary64)} {bridge : Bridge} (h : Guarded limits bridge)
    {event : BridgeEvent} (hevent : event.Sensible) : Guarded limits (bridge.next event) := by
  have hserver : Server.Tame limits (bridge.next event).server := by
    refine server_next_invariant (fun server thread htame => htame.next_other thread) ?_ h.server event
    exact fun commanded hmem index server htame => htame.next_moveCommand (h.commands commanded hmem) index
  have hcount : (bridge.next event).server.robot.jointCount ≤ 65534 := by
    refine server_next_invariant (I := fun server => server.robot.jointCount ≤ 65534) ?_ ?_ h.fits event
    · exact fun server thread hfits => (server.jointCount_next thread.item).trans_le hfits
    · exact fun commanded _ index server hfits => (server.jointCount_next _).trans_le hfits
  cases event with
  | onActivate connected =>
      rw [Bridge.next, RobotEmulatorHardwareInterface.onActivate]
      split_ifs
      · exact h
      · exact ⟨h.server, h.shown, h.commands, h.fits⟩
  | onDeactivate => exact ⟨h.server, h.shown, h.commands, h.fits⟩
  | write deliveries | other thread => exact ⟨hserver, h.shown, h.commands, hcount⟩
  | command index position =>
      refine ⟨h.server, h.shown, fun commanded hmem => ?_, h.fits⟩
      rcases List.mem_or_eq_of_mem_set hmem with hold | rfl
      · exact h.commands commanded hold
      · exact hevent
  | read delivery =>
      have hothers : Server.Tame limits (bridge.server.others delivery.others) :=
        Server.others_invariant (fun server thread htame => htame.next_other thread) h.server delivery.others
      refine ⟨hserver, ?_, ?_, hcount⟩
      · rw [Bridge.next, bridge.interface.read_eq delivery h.fits]
        split_ifs
        · exact h.shown
        · exact h.shown.fill hothers
        · exact h.shown
      · obtain ⟨joints, hfill⟩ := bridge.interface.exists_fill_read bridge.server delivery
        rw [Bridge.next, hfill]
        exact h.commands

/-- **The envelope, through the bridge.** As long as the controllers command positions that are numbers, however large,
no joint leaves its envelope, and ROS is never shown a position or a velocity outside a joint's limits: whatever
becomes of the requests, and whatever earlier clients have done that sent no move to a target that is not a number. -/
theorem envelope_throughout (config : RobotConfig Binary64) (h : config.validate = .ok ())
    (hbounded : ∀ limits ∈ config.joints, limits.Bounded) (brakes : List VirtualBrake) (items : List Item)
    (hitems : Along Server.next (fun server item => ¬server.MovesToNaN item) (Server.boot config h brakes) items)
    (hcount : config.joints.length ≤ 65534) {size : Nat} (hsize : size ≤ 255) (events : List BridgeEvent)
    (hevents : ∀ event ∈ events, event.Sensible) :
    Throughout next (fun bridge => bridge.server.InEnvelope ∧ ShownWithin config.joints bridge.interface)
      (start size (run Server.next (Server.boot config h brakes) items)) events := by
  have htame := Server.tame_run h hbounded brakes hitems
  have hfits : (run Server.next (Server.boot config h brakes) items).robot.jointCount ≤ 65534 := by
    rw [← htame.limits_eq, Server.limits, List.length_map] at hcount
    exact hcount
  have hrun : Throughout next (Guarded config.joints)
      (start size (run Server.next (Server.boot config h brakes) items)) events := by
    apply Along.throughout (q := fun _ event => event.Sensible)
    · exact fun bridge event hguarded hevent => hguarded.next hevent
    · exact .start htame hfits hsize
    · exact along_iff_forall.2 hevents
  exact hrun.mono fun bridge hguarded => ⟨hguarded.server.inEnvelope, hguarded.shown⟩

/-- The robot of `main`, enabled: a controller commands a target far out of range, and ROS asks for the state. -/
theorem envelope_throughout_far :
    Throughout next (fun bridge => bridge.server.InEnvelope ∧ ShownWithin (Server.scenario 6).joints bridge.interface)
      (start 6 (run Server.next (Server.boot (Server.scenario 6) (by decide) []) [Server.plainRequest .enable]))
      [.onActivate true, .command 0 (Binary64.ofInt (10 ^ 308)), .write fun _ => ⟨[.control], true, true, [13]⟩,
        .read ⟨[.control], true, true, [4096]⟩] :=
  envelope_throughout _ (by decide) (Server.bounded_scenario 6) [] [Server.plainRequest .enable]
    ⟨fun hnan => absurd hnan.1 (by decide), trivial⟩ (by decide) (by decide) _
    (List.forall_mem_cons.2 ⟨trivial, List.forall_mem_cons.2 ⟨Binary64.not_isNaN_ofInt (10 ^ 308),
      List.forall_mem_cons.2 ⟨trivial, List.forall_mem_cons.2 ⟨trivial, List.forall_mem_nil _⟩⟩⟩⟩)

end Bridge

/-! ### Holding still -/

theorem copyInto_of_length_eq {buffer values : List Binary64} (h : values.length = buffer.length) :
    copyInto buffer values = values := by
  induction buffer generalizing values with
  | nil => exact (List.length_eq_zero_iff.1 h).symm ▸ rfl
  | cons old buffer ih =>
      cases values with
      | nil => cases h
      | cons value values => exact congrArg (List.cons value) (ih (Nat.succ.inj h))

theorem Setting.getElem?_assign {settings : List Setting} {targets : List Binary64}
    (h : List.Forall₂ Setting.Takes settings targets) (i : Nat) :
    ((assign settings targets)[i]?).map Setting.targetPosition = targets[i]? := by
  induction h generalizing i with
  | nil => rfl
  | cons htakes hrest ih =>
      cases i with
      | zero =>
          rw [assign, take, if_pos htakes]
          rfl
      | succ i => exact ih i

namespace Server

theorem Tame.others {limits : List (JointLimits Binary64)} {server : Server} (h : Tame limits server)
    (threads : List OtherThread) : Tame limits (server.others threads) :=
  others_invariant (fun _ thread htame => htame.next_other thread) h threads

theorem enabled_others (server : Server) (henabled : ∀ joint ∈ server.robot.joints, joint.enabled = true)
    (threads : List OtherThread) : ∀ joint ∈ (server.others threads).robot.joints, joint.enabled = true := by
  intro joint hmem
  have hsetting : joint.setting ∈ (server.others threads).settings := List.mem_map_of_mem hmem
  rw [settings_others] at hsetting
  obtain ⟨joint', hmem', heq⟩ := List.mem_map.1 hsetting
  have hsame : joint'.enabled = joint.enabled := congrArg Setting.enabled heq
  exact hsame.symm.trans (henabled joint' hmem')

/-- On the robot of `main`, with its joints enabled, every joint takes the target that its own position comes to. -/
theorem Tame.takes_positions {jointCount : Nat} {server : Server}
    (h : Tame (List.replicate jointCount defaultLimits) server)
    (henabled : ∀ joint ∈ server.robot.joints, joint.enabled = true) :
    List.Forall₂ Setting.Takes server.settings (server.robot.positions.map commandedTarget) := by
  rw [settings, Robot.positions, List.map_map, List.forall₂_map_left_iff, List.forall₂_map_right_iff, List.forall₂_same]
  intro joint hmem
  obtain ⟨⟨hmin, hmax⟩, -⟩ := (h.inEnvelope joint hmem).1
  rw [h.limits_of_mem hmem] at hmin hmax
  obtain ⟨htargetMin, htargetMax⟩ := radians_toDegrees_mem hmin hmax
  rw [Setting.Takes, Joint.setting, h.limits_of_mem hmem]
  exact ⟨henabled joint hmem, Binary64.not_lt_of_le htargetMin, Binary64.not_lt_of_le htargetMax⟩

end Server

namespace RobotEmulatorHardwareInterface

theorem write_of_client {interface : RobotEmulatorHardwareInterface} (hclient : interface.client = true)
    (server : Server) (deliveries : Nat → Delivery) :
    interface.write server deliveries = writeFrom server deliveries 0 interface.hwCommandsPosition := by
  rw [write, hclient]
  rfl

/-- Where the connection does not fail and every joint takes its target, `write` gives each its own. -/
theorem targets_write {interface : RobotEmulatorHardwareInterface} (hclient : interface.client = true)
    (hfit : interface.hwCommandsPosition.length ≤ 255) {server : Server} {deliveries : Nat → Delivery}
    (hcomplete : ∀ i < interface.hwCommandsPosition.length, (deliveries i).Completes (FrameCodec.headerSize + 1))
    (htakes : List.Forall₂ Setting.Takes server.settings (interface.hwCommandsPosition.map commandedTarget)) :
    (interface.write server deliveries).2 = .ok ∧ ∀ i : Nat,
      ((interface.write server deliveries).1.settings[i]?).map Setting.targetPosition =
        (interface.hwCommandsPosition[i]?).map commandedTarget := by
  have hnone : server.settings = [] ++ server.settings := rfl
  have hall : True → ∀ i < ([] : List Setting).length + interface.hwCommandsPosition.length,
      (deliveries i).Completes (FrameCodec.headerSize + 1) := by
    rw [List.length_nil, Nat.zero_add]
    exact fun _ => hcomplete
  obtain ⟨after, acknowledged, carried, hafter, hwritten⟩ :=
    written_writeFrom deliveries interface.hwCommandsPosition hnone (by rw [List.length_nil]; omega) hall
  obtain ⟨hassign, hok⟩ := hwritten.of_complete trivial
  have hlength := htakes.length_eq
  have hresult := hok (by rwa [← hlength, List.take_length])
  have hacknowledged := hwritten.ok_iff.1 hresult
  rw [write_of_client hclient]
  refine ⟨hresult, fun i => ?_⟩
  rw [List.length_nil, List.nil_append] at hafter
  rw [hafter, hassign, hacknowledged, List.take_length, Setting.getElem?_assign htakes, List.getElem?_map]

/-- The positions a robot has had as targets. -/
theorem targets_write_positions {jointCount : Nat} (hsize : jointCount ≤ 255) {met : Server}
    (htame : Server.Tame (List.replicate jointCount Server.defaultLimits) met)
    (henabled : ∀ joint ∈ met.robot.joints, joint.enabled = true)
    {held : RobotEmulatorHardwareInterface} (hclient : held.client = true)
    (hcommands : held.hwCommandsPosition = met.robot.positions) {deliveries : Nat → Delivery}
    (hwrite : ∀ i < jointCount, (deliveries i).Completes (FrameCodec.headerSize + 1)) :
    (held.write met deliveries).2 = .ok ∧
      ∀ (i : Nat) (joint : Joint Binary64), (held.write met deliveries).1.robot.joints[i]? = some joint →
        ∃ position : Binary64, met.robot.positions[i]? = some position ∧
          joint.limits.minPosition ≤ joint.targetPosition ∧ joint.targetPosition ≤ joint.limits.maxPosition ∧
          |joint.targetPosition.toReal - position.toReal| ≤ |position.toReal| / 2 ^ 50 + 2 ^ (-900 : Int) := by
  have hlength : held.hwCommandsPosition.length = jointCount := by
    rw [hcommands, Robot.positions, List.length_map, htame.length_joints]
  obtain ⟨hok, htargets⟩ := targets_write hclient (hlength.trans_le hsize) (by rwa [hlength])
    (by rw [hcommands]; exact htame.takes_positions henabled)
  have hlimits : (held.write met deliveries).1.limits = List.replicate jointCount Server.defaultLimits := by
    rw [write_of_client hclient]
    refine writeFrom_invariant (I := fun server => server.limits = _) ?_ ?_ deliveries 0 htame.limits_eq
    · exact fun server thread heq => (server.limits_next _).trans heq
    · exact fun commanded _ index server heq => (server.limits_next _).trans heq
  refine ⟨hok, fun i joint hjoint => ?_⟩
  have hbounds : joint.limits = Server.defaultLimits := by
    have hmem : joint.limits ∈ (held.write met deliveries).1.limits := List.mem_map_of_mem (List.mem_of_getElem? hjoint)
    rw [hlimits] at hmem
    exact List.eq_of_mem_replicate hmem
  have htarget := htargets i
  rw [Server.settings, List.getElem?_map, hjoint, hcommands] at htarget
  obtain ⟨position, hposition, heq⟩ := Option.map_eq_some_iff.1 htarget.symm
  have hmem : position ∈ met.robot.positions := List.mem_of_getElem? hposition
  obtain ⟨before, hbefore, rfl⟩ := List.mem_map.1 hmem
  obtain ⟨⟨hmin, hmax⟩, -⟩ := (htame.inEnvelope before hbefore).1
  rw [htame.limits_of_mem hbefore] at hmin hmax
  obtain ⟨hfinite, hsmall⟩ := isFinite_of_mem_defaultLimits hmin hmax
  have hreached : joint.targetPosition = commandedTarget before.state.position := heq.symm
  rw [hbounds, hreached]
  exact ⟨_, hposition, (radians_toDegrees_mem hmin hmax).1, (radians_toDegrees_mem hmin hmax).2,
    abs_radians_toDegrees_sub_le_add hfinite hsmall⟩

/-- **Holding still.** On the robot of `main` with its joints enabled, a controller that commands the positions just
read is obeyed, wherever the joints are and whatever the server's other threads do in between: `read` and `write`
succeed, and every target is within the limits, and within one part in a quadrillion of the position that was read. -/
theorem write_of_read {jointCount : Nat} (h : (Server.scenario jointCount).validate = .ok ()) (hsize : jointCount ≤ 255)
    (brakes : List VirtualBrake) {items : List Item}
    (hitems : Along Server.next (fun server item => ¬server.MovesToNaN item)
      (Server.boot (Server.scenario jointCount) h brakes) items)
    {server : Server} (hserver : server = run Server.next (Server.boot (Server.scenario jointCount) h brakes) items)
    (henabled : ∀ joint ∈ server.robot.joints, joint.enabled = true)
    {interface : RobotEmulatorHardwareInterface} (hclient : interface.client = true)
    (hbuffer : interface.hwPositions.length = jointCount) {delivery : Delivery} {deliveries : Nat → Delivery}
    (hread : delivery.Completes (FrameCodec.headerSize + (28 + 16 * jointCount)))
    (hwrite : ∀ i < jointCount, (deliveries i).Completes (FrameCodec.headerSize + 1)) :
    let found := interface.read server delivery
    let held := { found.1 with hwCommandsPosition := found.1.hwPositions }
    found.2.2 = .ok ∧ (held.write found.2.1 deliveries).2 = .ok ∧
      ∀ (i : Nat) (joint : Joint Binary64), (held.write found.2.1 deliveries).1.robot.joints[i]? = some joint →
        ∃ position : Binary64, found.1.hwPositions[i]? = some position ∧
          joint.limits.minPosition ≤ joint.targetPosition ∧ joint.targetPosition ≤ joint.limits.maxPosition ∧
          |joint.targetPosition.toReal - position.toReal| ≤ |position.toReal| / 2 ^ 50 + 2 ^ (-900 : Int) := by
  have htame : Server.Tame (List.replicate jointCount Server.defaultLimits) server := by
    rw [hserver]
    exact Server.tame_run h (Server.bounded_scenario jointCount) brakes hitems
  generalize hmet : server.others delivery.others = met
  have hmetTame : Server.Tame (List.replicate jointCount Server.defaultLimits) met := hmet ▸ htame.others _
  have hreport : FrameCodec.headerSize + 1 + (encodeStatusPayload met.statusPayload).length ≤
      FrameCodec.headerSize + (28 + 16 * jointCount) := by
    have hname : met.statusPayload.robotName.length = 8 := rfl
    have hstate := met.length_controllerStateName_le
    have hjoints : met.statusPayload.joints.length = jointCount := (List.length_map _).trans hmetTame.length_joints
    rw [length_encodeStatusPayload, hname, hjoints]
    omega
  have hfound : interface.read server delivery = (interface.fill met.statusPayload.joints, met, .ok) := by
    have hcount : server.robot.jointCount ≤ 65534 := htame.length_joints.trans_le (by omega)
    rw [read_eq interface delivery hcount, if_neg (by rw [hclient]; decide), hmet,
      if_pos ⟨hread.1, hreport.trans hread.2⟩]
  have hpositions : (interface.fill met.statusPayload.joints).hwPositions = met.robot.positions := by
    have hall : met.robot.positions.length = interface.hwPositions.length := by
      rw [Robot.positions, List.length_map, hmetTame.length_joints, hbuffer]
    rw [fill, Server.statusPayload, List.map_map]
    exact copyInto_of_length_eq hall
  obtain ⟨hok, htargets⟩ := targets_write_positions hsize hmetTame (hmet ▸ server.enabled_others henabled _)
    (show { interface.fill met.statusPayload.joints with
      hwCommandsPosition := (interface.fill met.statusPayload.joints).hwPositions }.client = true from hclient)
    hpositions hwrite
  rw [← hpositions] at htargets
  rw [hfound]
  exact ⟨rfl, hok, htargets⟩

/-- The six joints of `main`, just enabled. -/
theorem write_of_read_enabled :
    let found := read ⟨true, List.replicate 6 (Binary64.ofInt 0), List.replicate 6 (Binary64.ofInt 0), []⟩
      (run Server.next (Server.boot (Server.scenario 6) (by decide) []) [Server.plainRequest .enable])
      ⟨[.control], true, true, [4096]⟩
    let held := { found.1 with hwCommandsPosition := found.1.hwPositions }
    found.2.2 = .ok ∧ (held.write found.2.1 fun _ => ⟨[.control], true, true, [13]⟩).2 = .ok ∧
      ∀ (i : Nat) (joint : Joint Binary64),
        (held.write found.2.1 fun _ => ⟨[.control], true, true, [13]⟩).1.robot.joints[i]? = some joint →
        ∃ position : Binary64, found.1.hwPositions[i]? = some position ∧
          joint.limits.minPosition ≤ joint.targetPosition ∧ joint.targetPosition ≤ joint.limits.maxPosition ∧
          |joint.targetPosition.toReal - position.toReal| ≤ |position.toReal| / 2 ^ 50 + 2 ^ (-900 : Int) :=
  write_of_read (by decide) (by decide) []
    (show Along Server.next _ _ [Server.plainRequest .enable] from ⟨fun hnan => absurd hnan.1 (by decide), trivial⟩) rfl
    (by decide +kernel) rfl rfl (by decide) fun i _ => by decide

end RobotEmulatorHardwareInterface
end RobotEmu
