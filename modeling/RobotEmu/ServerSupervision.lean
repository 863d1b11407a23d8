import RobotEmu.ServerRun

/-! What the supervisor says of every run of the server: how final an emergency stop is, what keeps the
joints still after `Stop` and `Disable`, when the controller's state and the enable flags agree, and when
an `Ok` answer means what it says. -/

namespace RobotEmu

open Machine

/-- `estop.trigger()` runs: on an `EmergencyStop` request or in the watchdog's response. -/
def Item.Triggers : Item → Prop
  | .watchdog => True
  | .request frame => frame.type = .emergencyStop
  | .control => False

/-- A request of one type. -/
def Item.Requests (type : CommandType) : Item → Prop
  | .request frame => frame.type = type
  | _ => False

instance (type : CommandType) (item : Item) : Decidable (item.Requests type) :=
  match item with
  | .request frame => inferInstanceAs (Decidable (frame.type = type))
  | .control => inferInstanceAs (Decidable False)
  | .watchdog => inferInstanceAs (Decidable False)

namespace Server

/-- A control step that leaves every joint where it is. -/
def Still (server : Server) (item : Item) : Prop :=
  item = .control → (server.next item).robot.positions = server.robot.positions

/-- Nothing moves outside of motion, nor while the joints are disabled. -/
theorem still_of_refines {server : Server} {supervisor : Supervisor} (h : Refines server supervisor)
    (hstill : supervisor.phase ≠ .moving ∨ supervisor.enabled = false) (item : Item) :
    Still server item := by
  rintro rfl
  have hjoints : server.step.robot.joints = server.robot.joints := by
    unfold step
    dsimp only
    split_ifs with hmoving
    · have hstate : supervisor.phase.state = Phase.moving.state := h.state.symm.trans hmoving
      rcases hstill with hphase | hdisabled
      · exact absurd (Phase.state_inj.1 hstate) hphase
      · exact Robot.update_of_disabled (fun joint hmem => (h.enabled joint hmem).trans hdisabled) _
    · rfl
  exact congrArg (List.map (·.state.position)) hjoints

/-- A property of the supervisor that holds nothing still is not lost: what the orders of a run keep
keeps the joints where they are. -/
theorem along_still_of_refines {server : Server} {supervisor : Supervisor} (h : Refines server supervisor)
    {p : Supervisor → Prop} {q : Server → Item → Prop}
    (hstill : ∀ supervisor, p supervisor → supervisor.phase ≠ .moving ∨ supervisor.enabled = false)
    (hkeep : ∀ server supervisor item, p supervisor → q server item →
      p (supervisor.obey (server.order item)))
    (hp : p supervisor) {items : List Item} (hq : Along next q server items) :
    Along next Still server items :=
  Along.of_invariant (I := fun server => ∃ supervisor, Refines server supervisor ∧ p supervisor)
    (fun server item ⟨supervisor, hrefines, hp⟩ hitem =>
      ⟨⟨_, hrefines.next item, hkeep server supervisor item hp hitem⟩,
        still_of_refines hrefines (hstill supervisor hp) item⟩)
    ⟨supervisor, h, hp⟩ hq

/-- A `MoveJoint` request that is answered `Ok`. -/
def AcceptsMove (server : Server) : Item → Prop
  | .request frame => frame.type = .moveJoint ∧ server.AnsweredOk frame
  | _ => False

/-- The orders to enable, to disable and to move come from the requests of that type. -/
theorem requests_of_order (server : Server) (item : Item) :
    (server.order item = .enable → item.Requests .enable) ∧
    (server.order item = .disable ↔ item.Requests .disable) ∧
    (server.order item = .move → server.AcceptsMove item) := by
  cases item with
  | control => exact ⟨nofun, ⟨nofun, nofun⟩, nofun⟩
  | watchdog => exact ⟨nofun, ⟨nofun, nofun⟩, nofun⟩
  | request frame =>
      obtain ⟨flags, type, payload⟩ := frame
      cases type with
      | enable => exact ⟨fun _ => rfl, ⟨nofun, nofun⟩, nofun⟩
      | disable => exact ⟨nofun, ⟨fun _ => rfl, fun _ => rfl⟩, nofun⟩
      | moveJoint =>
          unfold order
          dsimp only
          split_ifs with hok
          · exact ⟨nofun, ⟨nofun, nofun⟩, fun _ => ⟨rfl, hok⟩⟩
          · exact ⟨nofun, ⟨nofun, nofun⟩, nofun⟩
      | connect | getStatus | home | moveLinear | stop | emergencyStop | getPosition | getIO | setIO
        | resetFault | injectFault => exact ⟨nofun, ⟨nofun, nofun⟩, nofun⟩

theorem order_of_requests_stop {server : Server} {item : Item} (h : item.Requests .stop) :
    server.order item = .stop := by
  cases item with
  | control => exact h.elim
  | watchdog => exact h.elim
  | request frame =>
      have htype : frame.type = .stop := h
      rw [order, htype]

/-! ### The emergency stop -/

/-- Once the emergency stop is triggered in a state other than `Idle` and `ServoOff`, no control step
moves a joint any more; after one in `Idle` or `ServoOff`, none does before the next `Enable`. -/
theorem trigger_latches {server : Server} (hreach : Reachable server) {item : Item}
    (htrigger : item.Triggers) (items : List Item)
    (h : server.controller.state ≠ .idle ∧ server.controller.state ≠ .servoOff ∨
      Along next (fun _ later => ¬later.Requests .enable) (server.next item) items) :
    Along next Still (server.next item) items := by
  obtain ⟨supervisor, hrefines, -⟩ := hreach.refines
  have horder : server.order item = .trigger := by
    cases item with
    | control => exact htrigger.elim
    | watchdog => rfl
    | request frame =>
        have htype : frame.type = .emergencyStop := htrigger
        rw [order, htype]
  have hnext := hrefines.next item
  rw [horder] at hnext
  rcases h with ⟨hidle, hservoOff⟩ | hnoEnable
  · have hstopped : (supervisor.obey .trigger).phase = .emergencyStop := by
      obtain ⟨phase, enabled⟩ := supervisor
      have hstate : server.controller.state = phase.state := hrefines.state
      cases phase with
      | idle => exact absurd hstate hidle
      | servoOff => exact absurd hstate hservoOff
      | ready | moving | emergencyStop => rfl
    refine along_still_of_refines hnext (p := fun supervisor => supervisor.phase = .emergencyStop)
      (fun supervisor hphase => .inl (by rw [hphase]; decide))
      (fun server supervisor item hphase _ => Supervisor.obey_emergencyStop hphase _) hstopped
      (Along.of_forall (q := fun _ _ => True) (fun _ _ => trivial) _ items)
  · have hphase : (supervisor.obey .trigger).phase ≠ .moving ∧
        (supervisor.obey .trigger).phase ≠ .ready := by
      obtain ⟨phase, enabled⟩ := supervisor
      cases phase <;> simp [Supervisor.obey]
    refine along_still_of_refines hnext
      (p := fun supervisor => supervisor.phase ≠ .moving ∧ supervisor.phase ≠ .ready)
      (fun supervisor hphase => .inl hphase.1) (fun server supervisor item hphase hitem => ?_) hphase
      hnoEnable
    have hne : server.order item ≠ .enable := fun heq => hitem ((server.requests_of_order item).1 heq)
    exact Supervisor.obey_not_ready hphase hne

theorem trigger_latches_ready :
    Along next Still (((bootScenario 1 (by decide)).next (plainRequest .enable)).next .watchdog)
      [.control, plainRequest .enable, moveRequest 0 (Binary64.ofInt 1), .control] :=
  trigger_latches ((reachable_bootScenario 1 (by decide)).next _)
    (show Item.Triggers .watchdog from trivial) _
    (.inl ⟨by decide, by decide⟩)

/-- In `Idle` the trigger engages the brakes and leaves no trace in the controller: after an `Enable` and
a `MoveJoint` the joint moves. -/
theorem not_latched_from_idle :
    ¬∀ server item, Reachable server → item.Triggers →
      ∀ items, Along next Still (server.next item) items := by
  intro hall
  have hrun := hall _ (plainRequest .emergencyStop) (reachable_bootScenario 1 (by decide)) rfl
    [plainRequest .enable, moveRequest 0 (Binary64.ofInt 1), .control]
  have hstill := hrun.2.2.1 rfl
  revert hstill
  decide +kernel

/-! ### Between two items -/

/-- What holds whenever the mutex is free: no compound command is seen half-done. -/
structure Settled (server : Server) : Prop where
  state : server.controller.state ∈
    [ControllerState.idle, .servoOff, .ready, .moving, .emergencyStop]
  uniform : ∀ joint ∈ server.robot.joints, ∀ joint' ∈ server.robot.joints, joint.enabled = joint'.enabled
  disabled : server.controller.state = .idle ∨ server.controller.state = .servoOff →
    ∀ joint ∈ server.robot.joints, joint.enabled = false

theorem settled_of_refines {server : Server} {supervisor : Supervisor} (h : Refines server supervisor)
    (hsound : supervisor.Sound) : Settled server where
  state := by
    rw [h.state]
    cases supervisor.phase <;> decide
  uniform joint hmem joint' hmem' := by
    rw [h.enabled joint hmem, h.enabled joint' hmem']
  disabled hstate joint hmem := by
    rw [h.enabled joint hmem, ← Bool.not_eq_true]
    intro henabled
    obtain ⟨hidle, hservoOff⟩ := hsound henabled
    rcases hstate with hstate | hstate
    · exact hidle ((h.state_iff .idle).1 hstate)
    · exact hservoOff ((h.state_iff .servoOff).1 hstate)

/-- The emergency stop is absorbing. -/
theorem emergencyStop_throughout {server : Server} (hreach : Reachable server)
    (hstate : server.controller.state = .emergencyStop) (items : List Item) :
    Throughout next (fun later => later.controller.state = .emergencyStop) server items := by
  obtain ⟨supervisor, hrefines, -⟩ := hreach.refines
  have hphase : supervisor.phase = .emergencyStop := (hrefines.state_iff .emergencyStop).1 hstate
  have hrun : Throughout next
      (fun later => ∃ supervisor, Refines later supervisor ∧ supervisor.phase = .emergencyStop) server items :=
    throughout_of_invariant (fun later item ⟨supervisor, hrefines, hphase⟩ =>
      ⟨_, hrefines.next item, Supervisor.obey_emergencyStop hphase _⟩) ⟨supervisor, hrefines, hphase⟩
  exact hrun.mono fun later ⟨supervisor, hrefines, hphase⟩ =>
    (hrefines.state_iff .emergencyStop).2 hphase

/-- In every run from boot the server is settled between any two items, and once the controller is in
`EmergencyStop` it stays there for the rest of the run. -/
theorem settled_throughout (config : RobotConfig Binary64) (h : config.validate = .ok ())
    (brakes : List VirtualBrake) (items : List Item) :
    Throughout next Settled (boot config h brakes) items ∧
      ∀ before later, items = before ++ later →
        (run next (boot config h brakes) before).controller.state = .emergencyStop →
        Throughout next (fun server => server.controller.state = .emergencyStop)
          (run next (boot config h brakes) before) later := by
  constructor
  · have hrun : Throughout next
        (fun server => ∃ supervisor, Refines server supervisor ∧ supervisor.Sound)
        (boot config h brakes) items :=
      throughout_of_invariant (fun server item ⟨supervisor, hrefines, hsound⟩ =>
        ⟨_, hrefines.next item, hsound.obey _⟩) ⟨_, Refines.boot config h brakes, nofun⟩
    exact hrun.mono fun server ⟨supervisor, hrefines, hsound⟩ => settled_of_refines hrefines hsound
  · rintro before later - hstate
    exact emergencyStop_throughout ⟨config, h, brakes, before, rfl⟩ hstate later

theorem settled_throughout_six :
    Throughout next Settled (boot (scenario 6) (by decide) (List.replicate 6 {}))
        [plainRequest .enable, .watchdog, plainRequest .enable, .control] ∧
      ∀ before later, [plainRequest .enable, .watchdog, plainRequest .enable, .control] = before ++ later →
        (run next (boot (scenario 6) (by decide) (List.replicate 6 {})) before).controller.state =
          .emergencyStop →
        Throughout next (fun server => server.controller.state = .emergencyStop)
          (run next (boot (scenario 6) (by decide) (List.replicate 6 {})) before) later :=
  settled_throughout _ _ _ _

/-! ### `Stop` and `Disable` -/

/-- A control step that leaves one joint where it is. -/
def StillJoint (index : Nat) (server : Server) (item : Item) : Prop :=
  item = .control → (server.next item).robot.positions[index]? = server.robot.positions[index]?

/-- A `MoveJoint` request that names the joint and is answered `Ok`. -/
def AcceptsMoveOf (index : Nat) (server : Server) : Item → Prop
  | .request frame => frame.type = .moveJoint ∧ server.AnsweredOk frame ∧
      ∃ payload, decodeMoveJointPayload frame.payload = .ok payload ∧ payload.jointIndex.toNat = index
  | _ => False

/-- Targets survive a `Stop`: a joint that was stopped on its way goes on when another joint is moved. -/
theorem not_cancelled_by_stop :
    ¬∀ server item index, Reachable server → item.Requests .stop ∨ item.Requests .disable →
      ∀ items, Along next (fun server later => ¬AcceptsMoveOf index server later ∧ ¬later.Requests .home)
          (server.next item) items →
        Along next (StillJoint index) (server.next item) items := by
  intro hall
  have hreach := ((reachable_bootScenario 2 (by decide)).next (plainRequest .enable)).next
    (moveRequest 0 (Binary64.ofInt 1))
  have hother : ∀ server, ¬AcceptsMoveOf 0 server (moveRequest 1 (Binary64.ofInt 1)) := by
    rintro server ⟨-, -, payload, hdecode, hindex⟩
    rw [decodeMoveJointPayload_encoded] at hdecode
    obtain rfl := Except.ok.inj hdecode
    exact absurd hindex (by decide)
  have hrun := hall _ (plainRequest .stop) 0 hreach (.inl rfl)
    [moveRequest 1 (Binary64.ofInt 1), .control]
    (And.intro ⟨hother _, by decide⟩ (And.intro ⟨fun h => h, fun h => h⟩ trivial))
  have hstill := hrun.2.1 rfl
  revert hstill
  decide +kernel

/-- After a `Stop`, or a `Disable` that does not find the controller in motion, no control step moves a
joint before the next accepted `MoveJoint`; after any `Disable`, none does before the next `Enable`. -/
theorem stop_and_disable_still {server : Server} (hreach : Reachable server) {item : Item}
    (items : List Item)
    (h : (item.Requests .stop ∨ item.Requests .disable ∧ server.controller.state ≠ .moving) ∧
        Along next (fun server later => ¬server.AcceptsMove later) (server.next item) items ∨
      item.Requests .disable ∧
        Along next (fun _ later => ¬later.Requests .enable) (server.next item) items) :
    Along next Still (server.next item) items := by
  obtain ⟨supervisor, hrefines, -⟩ := hreach.refines
  have hnext := hrefines.next item
  have hdisable := (server.requests_of_order item).2.1
  rcases h with ⟨hitem, hnoMove⟩ | ⟨hitem, hnoEnable⟩
  · have hphase : (supervisor.obey (server.order item)).phase ≠ .moving := by
      obtain ⟨phase, enabled⟩ := supervisor
      have hstate : server.controller.state = phase.state := hrefines.state
      rcases hitem with hstop | ⟨hdis, hmoving⟩
      · rw [order_of_requests_stop hstop]
        cases phase <;> exact nofun
      · rw [hdisable.2 hdis]
        cases phase with
        | moving => exact absurd hstate hmoving
        | idle | servoOff | ready | emergencyStop => exact nofun
    refine along_still_of_refines hnext (p := fun supervisor => supervisor.phase ≠ .moving)
      (fun supervisor hphase => .inl hphase) (fun server supervisor item hphase hitem => ?_) hphase hnoMove
    have hne : server.order item ≠ .move := fun heq => hitem ((server.requests_of_order item).2.2 heq)
    exact Supervisor.obey_not_moving hphase hne
  · rw [hdisable.2 hitem] at hnext
    refine along_still_of_refines hnext (p := fun supervisor => supervisor.enabled = false)
      (fun supervisor hdisabled => .inr hdisabled) (fun server supervisor item hdisabled hitem => ?_) rfl
      hnoEnable
    have hne : server.order item ≠ .enable := fun heq => hitem ((server.requests_of_order item).1 heq)
    exact Supervisor.obey_disabled hdisabled hne

theorem stop_and_disable_still_stopped :
    Along next Still ((((bootScenario 2 (by decide)).next (plainRequest .enable)).next
      (moveRequest 0 (Binary64.ofInt 1))).next (plainRequest .stop)) [.control, plainRequest .enable, .control] :=
  stop_and_disable_still (((reachable_bootScenario 2 (by decide)).next _).next _) _
    (.inl ⟨.inl rfl, And.intro (fun h => h) (And.intro (fun h => nomatch h.1) (And.intro (fun h => h) trivial))⟩)

/-! ### The controller's state and the enable flags -/

/-- In `Ready` and in `Moving` every joint is enabled. -/
def Agrees (server : Server) : Prop :=
  server.controller.state = .ready ∨ server.controller.state = .moving →
    ∀ joint ∈ server.robot.joints, joint.enabled = true

instance (server : Server) : Decidable (Agrees server) := inferInstanceAs (Decidable (_ → _))

/-- A `Disable` request that takes the controller out of `Ready` and `Moving`. -/
def DisableLeaves (server : Server) (item : Item) : Prop :=
  item.Requests .disable →
    (server.next item).controller.state ≠ .ready ∧ (server.next item).controller.state ≠ .moving

theorem agrees_iff {server : Server} {supervisor : Supervisor} (h : Refines server supervisor) :
    Agrees server ↔
      (supervisor.phase = .ready ∨ supervisor.phase = .moving → supervisor.enabled = true) := by
  rw [Agrees, h.enabled_iff, ← h.state_iff .ready, ← h.state_iff .moving]
  rfl

/-- One item keeps the agreement exactly if it is no `Disable` that finds the controller in motion. -/
theorem agrees_next_iff {server : Server} {supervisor : Supervisor} (h : Refines server supervisor)
    (hagrees : Agrees server) (item : Item) :
    Agrees (server.next item) ↔ ¬(item.Requests .disable ∧ server.controller.state = .moving) := by
  rw [agrees_iff h] at hagrees
  have hmoving : server.controller.state = .moving ↔ supervisor.phase = .moving := h.state_iff .moving
  rw [agrees_iff (h.next item), hmoving, ← (server.requests_of_order item).2.1]
  obtain ⟨phase, enabled⟩ := supervisor
  cases server.order item <;> cases phase <;> simp_all [Supervisor.obey]

theorem disableLeaves_of_not_moving {server : Server} {supervisor : Supervisor}
    (h : Refines server supervisor) {item : Item}
    (hitem : ¬(item.Requests .disable ∧ server.controller.state = .moving)) :
    DisableLeaves server item := by
  intro hdisable
  have hmoving : supervisor.phase ≠ .moving := fun hphase =>
    hitem ⟨hdisable, (h.state_iff .moving).2 hphase⟩
  have hnext := h.next item
  rw [(server.requests_of_order item).2.1.2 hdisable] at hnext
  rw [Ne, Ne, show (.ready : ControllerState) = Phase.ready.state from rfl,
    show (.moving : ControllerState) = Phase.moving.state from rfl, hnext.state_iff, hnext.state_iff]
  obtain ⟨phase, enabled⟩ := supervisor
  cases phase with
  | moving => exact absurd rfl hmoving
  | idle | servoOff | ready | emergencyStop => exact ⟨nofun, nofun⟩

/-- In a run from boot the controller's state and the enable flags agree, and every `Disable` takes the
controller out of `Ready` and `Moving`, exactly when no `Disable` finds the controller in motion. -/
theorem agrees_throughout_iff (config : RobotConfig Binary64) (h : config.validate = .ok ())
    (brakes : List VirtualBrake) (items : List Item) :
    Throughout next Agrees (boot config h brakes) items ∧
        Along next DisableLeaves (boot config h brakes) items ↔
      Along next (fun server item => ¬(item.Requests .disable ∧ server.controller.state = .moving))
        (boot config h brakes) items := by
  have hboot := Refines.boot config h brakes
  have hiff : Throughout next Agrees (boot config h brakes) items ↔ _ :=
    throughout_iff_along (A := fun server => ∃ supervisor, Refines server supervisor)
      (fun server item ⟨supervisor, hrefines⟩ hagrees =>
        ⟨⟨_, hrefines.next item⟩, agrees_next_iff hrefines hagrees item⟩)
      ⟨_, hboot⟩ ((agrees_iff hboot).2 nofun)
  rw [hiff, and_iff_left_iff_imp]
  exact Along.of_invariant (I := fun server => ∃ supervisor, Refines server supervisor)
    (fun server item ⟨supervisor, hrefines⟩ hitem =>
      ⟨⟨_, hrefines.next item⟩, disableLeaves_of_not_moving hrefines hitem⟩) ⟨_, hboot⟩

theorem agrees_throughout_stopped_first :
    Throughout next Agrees (boot (scenario 1) (by decide) [])
        [plainRequest .enable, moveRequest 0 (Binary64.ofInt 1), plainRequest .stop, plainRequest .disable] ∧
      Along next DisableLeaves (boot (scenario 1) (by decide) [])
        [plainRequest .enable, moveRequest 0 (Binary64.ofInt 1), plainRequest .stop, plainRequest .disable] :=
  (agrees_throughout_iff _ _ _ _).2 (by decide +kernel)

/-- A `Disable` in motion disables the joints and leaves the controller in `Moving`. -/
theorem not_agrees_throughout :
    ¬∀ config h brakes items, Throughout next Agrees (boot config h brakes) items := by
  intro hall
  have hrun := hall (scenario 1) (by decide) []
    [plainRequest .enable, moveRequest 0 (Binary64.ofInt 1), plainRequest .disable]
  revert hrun
  decide +kernel

/-! ### `Ok` answers -/

/-- An `Enable` answered `Ok` leaves every joint enabled and the controller in `Ready` or `Moving`; a
`MoveJoint` answered `Ok` leaves its joint enabled with the requested target and the controller in
`Moving`. -/
def Truthful (server : Server) (frame : Frame) : Prop :=
  (frame.type = .enable → server.AnsweredOk frame →
    (∀ joint ∈ (server.dispatch frame).1.robot.joints, joint.enabled = true) ∧
    ((server.dispatch frame).1.controller.state = .ready ∨
      (server.dispatch frame).1.controller.state = .moving)) ∧
  (frame.type = .moveJoint → server.AnsweredOk frame →
    ∃ payload joint, decodeMoveJointPayload frame.payload = .ok payload ∧
      (server.dispatch frame).1.robot.joints[payload.jointIndex.toNat]? = some joint ∧
      joint.enabled = true ∧ joint.targetPosition = payload.targetRadians ∧
      (server.dispatch frame).1.controller.state = .moving)

theorem truthful_of_other {server : Server} {frame : Frame} (henable : frame.type ≠ .enable)
    (hmove : frame.type = .moveJoint → ∀ payload, ¬server.Accepts frame payload) :
    Truthful server frame := by
  refine ⟨fun htype _ => absurd htype henable, fun htype hok => ?_⟩
  obtain ⟨payload, haccepts⟩ := (answeredOk_moveJoint_iff htype).1 hok
  exact absurd haccepts (hmove htype payload)

theorem truthful_enable_iff {server : Server} {supervisor : Supervisor} (h : Refines server supervisor)
    {frame : Frame} (htype : frame.type = .enable) :
    Truthful server frame ↔ supervisor.phase ≠ .emergencyStop := by
  have hdispatch : server.dispatch frame = server.handleEnable := by rw [dispatch, htype]
  have hok : server.AnsweredOk frame := by
    rw [AnsweredOk, hdispatch]
    rfl
  have hready := h.enable.state_iff .ready
  have hmoving := h.enable.state_iff .moving
  have hphase : (supervisor.obey .enable).phase = .ready ∨ (supervisor.obey .enable).phase = .moving ↔
      supervisor.phase ≠ .emergencyStop := by
    obtain ⟨phase, enabled⟩ := supervisor
    cases phase <;> simp [Supervisor.obey]
  rw [← hphase, ← hready, ← hmoving, ← hdispatch]
  constructor
  · intro htruthful
    exact (htruthful.1 htype hok).2
  · intro hstate
    refine ⟨fun _ _ => ⟨?_, hstate⟩, fun hmove => absurd (htype.symm.trans hmove) (by decide)⟩
    rw [hdispatch]
    exact h.enable.enabled_iff.2 rfl

theorem truthful_moveJoint_iff {server : Server} {supervisor : Supervisor} (h : Refines server supervisor)
    (hsound : supervisor.Sound) {frame : Frame} (htype : frame.type = .moveJoint)
    {payload : MoveJointPayload} (haccepts : server.Accepts frame payload) :
    Truthful server frame ↔ supervisor.phase ≠ .emergencyStop := by
  have hdispatch : (server.dispatch frame).1 = server.moved payload haccepts.index_lt := by
    rw [dispatch, htype]
    exact congrArg Prod.fst (handleMoveJoint_of_accepts haccepts)
  have hok : server.AnsweredOk frame := (answeredOk_moveJoint_iff htype).2 ⟨payload, haccepts⟩
  have henabled : supervisor.enabled = true :=
    (h.enabled _ (server.robot.joint_mem _ haccepts.index_lt)).symm.trans haccepts.enabled
  have hphase : (supervisor.obey .move).phase = .moving ↔ supervisor.phase ≠ .emergencyStop := by
    obtain ⟨hidle, hservoOff⟩ := hsound henabled
    obtain ⟨phase, enabled⟩ := supervisor
    cases phase <;> simp_all [Supervisor.obey]
  have hmoving := (h.moved haccepts.index_lt).state_iff .moving
  rw [← hphase, ← hmoving, ← hdispatch]
  constructor
  · intro htruthful
    obtain ⟨payload', joint, -, -, -, -, hstate⟩ := htruthful.2 htype hok
    exact hstate
  · intro hstate
    refine ⟨fun henable => absurd (htype.symm.trans henable) (by decide), fun _ _ => ?_⟩
    refine ⟨payload, { server.robot.joint payload.jointIndex.toNat haccepts.index_lt with
      targetPosition := payload.targetRadians }, haccepts.decodes, ?_, haccepts.enabled, rfl, hstate⟩
    rw [hdispatch]
    exact List.getElem?_set_self haccepts.index_lt

/-- In a reachable state the `Ok` answers are truthful except in `EmergencyStop`, where an `Enable` and a
`MoveJoint` that the joint accepts are answered `Ok` all the same. -/
theorem truthful_iff {server : Server} (hreach : Reachable server) (frame : Frame) :
    Truthful server frame ↔ ¬(server.controller.state = .emergencyStop ∧
      (frame.type = .enable ∨ frame.type = .moveJoint ∧ ∃ payload, server.Accepts frame payload)) := by
  obtain ⟨supervisor, h, hsound⟩ := hreach.refines
  have hstate : server.controller.state = .emergencyStop ↔ supervisor.phase = .emergencyStop :=
    h.state_iff .emergencyStop
  rw [hstate, not_and']
  by_cases henable : frame.type = .enable
  · rw [truthful_enable_iff h henable]
    exact ⟨fun hphase _ => hphase, fun hall => hall (.inl henable)⟩
  · by_cases hmove : frame.type = .moveJoint ∧ ∃ payload, server.Accepts frame payload
    · obtain ⟨htype, payload, haccepts⟩ := hmove
      rw [truthful_moveJoint_iff h hsound htype haccepts]
      exact ⟨fun hphase _ => hphase, fun hall => hall (.inr ⟨htype, payload, haccepts⟩)⟩
    · have htruthful : Truthful server frame := truthful_of_other henable fun htype payload haccepts =>
        hmove ⟨htype, payload, haccepts⟩
      exact ⟨fun _ hor => absurd hor (not_or.2 ⟨henable, hmove⟩), fun _ => htruthful⟩

theorem truthful_ready :
    Truthful ((bootScenario 1 (by decide)).next (plainRequest .enable)) { type := .enable, payload := [] } :=
  (truthful_iff ((reachable_bootScenario 1 (by decide)).next _) _).2 fun h => absurd h.1 (by decide)

/-- In `EmergencyStop` an `Enable` is answered `Ok` and the controller stays where it is. -/
theorem not_truthful : ¬∀ server frame, Reachable server → Truthful server frame := by
  intro hall
  have htruthful := hall _ { type := .enable, payload := [] }
    (((reachable_bootScenario 1 (by decide)).next (plainRequest .enable)).next .watchdog)
  have hstate := (htruthful.1 rfl (by decide)).2
  revert hstate
  decide

end Server
end RobotEmu
