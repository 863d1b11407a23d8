import RobotEmu.CoreConvergence
import RobotEmu.ServerPlant

/-! The joints of the server one by one. No request and no control step makes one joint depend on another: a run
of the server is to each joint a run of commands of its own, and what holds of such runs holds of the server. An
accepted move arrives, whatever is asked of the other joints in the meantime. -/

namespace RobotEmu

open Arith

namespace Plant

section
variable {F : Type*} [Arith F]

/-- What an event is to the joint at an index. -/
def asks (index : Nat) (plant : Plant F) : PlantEvent F → List (JointCommand F)
  | .control period => if plant.controller.state = .moving then [.update period] else []
  | .enable => [.enable]
  | .disable => [.disable]
  | .home => [.home]
  | .moveJoint moved target => if moved = index then [.setTargetPosition target] else []
  | .stop | .trigger | .other => []

theorem robot_moveJoint (plant : Plant F) {index : Nat} (h : index < plant.robot.jointCount) (target : F) :
    (plant.moveJoint index target).robot.joints =
      plant.robot.joints.set index ((plant.robot.joint index h).setTargetPosition target).2 := by
  rw [moveJoint, dif_pos h]
  dsimp only
  cases ((plant.robot.joint index h).setTargetPosition target).1 with
  | error e => rfl
  | ok done =>
      dsimp only
      split_ifs <;> rfl

/-- **One event, joint by joint.** -/
theorem joints_next (plant : Plant F) (event : PlantEvent F) :
    (plant.next event).robot.joints =
      plant.robot.joints.mapIdx fun index joint => Machine.run Joint.command joint (plant.asks index event) := by
  have hmap : ∀ command : Joint F → Joint F,
      plant.robot.joints.map command = plant.robot.joints.mapIdx fun _ joint => command joint := by
    intro command
    apply List.ext_getElem?
    intro index
    rw [List.getElem?_map, List.getElem?_mapIdx]
  have hself : plant.robot.joints = plant.robot.joints.mapIdx fun _ joint => joint := by
    rw [← hmap, List.map_id']
  cases event with
  | control period =>
      rw [next]
      by_cases hmoving : plant.controller.state = .moving
      · simp only [asks, if_pos hmoving]
        exact hmap (·.update period)
      · simp only [asks, if_neg hmoving]
        exact hself
  | enable => exact hmap Joint.enable
  | disable => exact hmap Joint.disable
  | home => exact hmap Joint.home
  | stop | trigger | other => exact hself
  | moveJoint moved target =>
      apply List.ext_getElem?
      intro index
      rw [next, List.getElem?_mapIdx]
      by_cases hmoved : moved < plant.robot.jointCount
      · rw [robot_moveJoint plant hmoved, List.getElem?_set, asks]
        by_cases hindex : moved = index
        · subst hindex
          have hlength : moved < plant.robot.joints.length := hmoved
          rw [if_pos rfl, if_pos hlength, if_pos rfl, List.getElem?_eq_getElem hlength]
          rfl
        · rw [if_neg hindex, if_neg hindex]
          exact Option.map_id'.symm
      · rw [moveJoint, dif_neg hmoved, asks]
        by_cases hindex : moved = index
        · subst hindex
          rw [List.getElem?_eq_none (not_lt.1 hmoved)]
          rfl
        · rw [if_neg hindex]
          exact Option.map_id'.symm

/-- **A run, to one joint.** -/
theorem joint_run {index : Nat} {plant : Plant F} {joint : Joint F} (h : plant.robot.joints[index]? = some joint)
    (events : List (PlantEvent F)) :
    (Machine.run next plant events).robot.joints[index]? =
      some (Machine.run Joint.command joint (Machine.translated next (asks index) plant events)) := by
  have hstep : ∀ (plant : Plant F) (joint : Joint F) (event : PlantEvent F),
      plant.robot.joints[index]? = some joint → (plant.next event).robot.joints[index]? =
        some (Machine.run Joint.command joint (plant.asks index event)) := by
    intro plant joint event hjoint
    rw [joints_next, List.getElem?_mapIdx, hjoint, Option.map_some]
  exact Machine.simulates_run (R := fun (plant : Plant F) joint => plant.robot.joints[index]? = some joint)
    hstep h events

/-- A property of single joints that their commands keep holds of all joints throughout. -/
theorem joints_throughout {p : Joint F → Prop} {config : RobotConfig F} (h : config.validate = .ok ())
    (hcommand : ∀ joint command, p joint → p (joint.command command))
    (hstart : ∀ limits ∈ config.joints, p (.ofLimits limits)) (events : List (PlantEvent F)) :
    Machine.Throughout next (fun plant => ∀ joint ∈ plant.robot.joints, p joint) (boot config h) events := by
  apply Machine.throughout_of_invariant
  · intro plant event hplant joint hmem
    rw [joints_next, List.mem_mapIdx] at hmem
    obtain ⟨index, hindex, rfl⟩ := hmem
    exact Machine.run_invariant hcommand (hplant _ (List.getElem_mem hindex)) _
  · intro joint hmem
    obtain ⟨limits, hlimits, rfl⟩ := List.mem_map.1 hmem
    exact hstart limits hlimits

end

end Plant

section
variable {F : Type*} [Arith F]

theorem Joint.limits_command (joint : Joint F) (command : JointCommand F) :
    (joint.command command).limits = joint.limits := by
  cases command with
  | enable | disable | home => rfl
  | setTargetPosition position => exact joint.limits_setTargetPosition position
  | setTargetVelocity velocity => exact joint.limits_setTargetVelocity velocity
  | update dt => exact joint.limits_update dt

theorem Joint.faulted_command (joint : Joint F) (command : JointCommand F) :
    (joint.command command).faulted = joint.faulted := by
  cases command with
  | enable | disable | home => rfl
  | setTargetPosition position =>
      rcases joint.setTargetPosition_cases position with ⟨h, -⟩ | ⟨e, h, -⟩ <;> rw [Joint.command, h]
  | setTargetVelocity velocity =>
      rw [Joint.command, Joint.setTargetVelocity]
      split_ifs <;> rfl
  | update dt =>
      obtain ⟨state, h⟩ := (joint.update_eq dt).1
      rw [Joint.command, h]

theorem Joint.targetPosition_iterate (joint : Joint F) (dt : Int) (n : ℕ) :
    ((·.update dt)^[n] joint).targetPosition = joint.targetPosition := by
  induction n with
  | zero => rfl
  | succ n ih => rw [Function.iterate_succ_apply', Joint.targetPosition_update, ih]

end

/-! ### In exact arithmetic -/

section
variable {K : Type*} [Field K] [LinearOrder K]

theorem Joint.inLimits_command {joint : Joint K} (hvalid : joint.limits.validate = .ok ())
    (hspan : joint.limits.SpanZero) (h : joint.InLimits) (command : JointCommand K) :
    (joint.command command).InLimits := by
  cases command with
  | enable | disable => exact h
  | home => exact Joint.inLimits_home hspan
  | setTargetPosition position => exact Joint.inLimits_setTargetPosition h position
  | setTargetVelocity velocity =>
      rw [Joint.command, Joint.setTargetVelocity]
      split_ifs <;> exact h
  | update dt => exact Joint.inLimits_update hvalid h dt

/-- A joint as the commands on it leave it. -/
structure Joint.Served (joint : Joint K) : Prop where
  valid : joint.limits.validate = .ok ()
  faulted : joint.faulted = false
  rated : Joint.Rated joint.limits joint
  inLimits : joint.limits.SpanZero → joint.InLimits

theorem Joint.Served.pursuing {joint : Joint K} (h : joint.Served) (henabled : joint.enabled = true)
    (hspan : joint.limits.SpanZero) : joint.Pursuing :=
  ⟨h.valid, henabled, h.faulted, h.inLimits hspan, h.rated⟩

variable [IsStrictOrderedRing K]

theorem Joint.served_ofLimits {limits : JointLimits K} (h : limits.validate = .ok ()) :
    (Joint.ofLimits limits).Served where
  valid := h
  faulted := rfl
  rated := .of_rest h rfl ⟨rfl, rfl⟩
  inLimits hspan := ⟨hspan, hspan⟩

theorem Joint.Served.command {joint : Joint K} (h : joint.Served) (command : JointCommand K) :
    (joint.command command).Served where
  valid := by
    rw [Joint.limits_command]
    exact h.valid
  faulted := by
    rw [Joint.faulted_command]
    exact h.faulted
  rated := by
    rw [Joint.limits_command]
    exact (h.rated.command h.valid command).1
  inLimits hspan := by
    rw [Joint.limits_command] at hspan
    exact Joint.inLimits_command h.valid hspan (h.inLimits hspan) command

theorem Plant.served_throughout {config : RobotConfig K} (h : config.validate = .ok ()) (events : List (PlantEvent K)) :
    Machine.Throughout Plant.next (fun plant => ∀ joint ∈ plant.robot.joints, joint.Served)
      (Plant.boot config h) events := by
  apply Plant.joints_throughout h
  · exact fun joint command hserved => hserved.command command
  · exact fun limits hlimits => Joint.served_ofLimits ((RobotConfig.validate_eq_ok_iff.1 h).2 limits hlimits)

/-- **Limits of the server's joints.** Throughout every run no joint exceeds its velocity and acceleration limits;
and the positions and targets are within the position limits throughout exactly if every joint's limits contain
zero. -/
theorem Plant.limits_throughout (config : RobotConfig K) (h : config.validate = .ok ()) (events : List (PlantEvent K)) :
    Machine.Throughout Plant.next (fun plant => ∀ joint ∈ plant.robot.joints, Joint.WithinRates joint.limits joint)
        (Plant.boot config h) events ∧
      (Machine.Throughout Plant.next (fun plant => plant.robot.InLimits) (Plant.boot config h) events ↔
        ∀ limits ∈ config.joints, limits.minPosition ≤ 0 ∧ 0 ≤ limits.maxPosition) := by
  have hspan : ∀ limits : JointLimits K, limits.SpanZero ↔ limits.minPosition ≤ 0 ∧ 0 ≤ limits.maxPosition := by
    intro limits
    rw [JointLimits.SpanZero, ofInt_zero]
  refine ⟨(Plant.served_throughout h events).mono fun plant hserved joint hmem =>
    (hserved joint hmem).rated.rates, ?_, ?_⟩
  · intro hrun limits hlimits
    have hstart := hrun.head (.ofLimits limits) (List.mem_map_of_mem hlimits)
    exact (hspan limits).1 hstart.1
  · intro hzero
    have hrun := Plant.joints_throughout (p := fun joint => joint.limits ∈ config.joints ∧ joint.Served) h
      (fun joint command hjoint => ⟨joint.limits_command command ▸ hjoint.1, hjoint.2.command command⟩)
      (fun limits hlimits => ⟨hlimits,
        Joint.served_ofLimits ((RobotConfig.validate_eq_ok_iff.1 h).2 limits hlimits)⟩) events
    refine hrun.mono fun plant hplant joint hmem => ?_
    obtain ⟨hlimits, hserved⟩ := hplant joint hmem
    exact hserved.inLimits ((hspan _).2 (hzero _ hlimits))

theorem Plant.limits_throughout_moved :
    Machine.Throughout Plant.next (fun plant => ∀ joint ∈ plant.robot.joints, Joint.WithinRates joint.limits joint)
        (Plant.boot (⟨"", [⟨-1, 1, 2, 5⟩]⟩ : RobotConfig ℚ) (by decide)) [.enable, .moveJoint 0 1, .control 1000000] ∧
      (Machine.Throughout Plant.next (fun plant => plant.robot.InLimits)
          (Plant.boot (⟨"", [⟨-1, 1, 2, 5⟩]⟩ : RobotConfig ℚ) (by decide))
          [.enable, .moveJoint 0 1, .control 1000000] ↔
        ∀ limits ∈ [(⟨-1, 1, 2, 5⟩ : JointLimits ℚ)], limits.minPosition ≤ 0 ∧ 0 ≤ limits.maxPosition) :=
  limits_throughout _ (by decide) _

end

/-- **A server run, to one joint**, in doubles: whatever is asked of the server, a joint sees its own commands and
no others, and an update only while the controller is moving. -/
theorem Server.run_joint (server : Server) (index : Nat) (joint : Joint Binary64)
    (h : server.robot.joints[index]? = some joint) (items : List Item) :
    (Machine.run Server.next server items).robot.joints[index]? =
      some (Machine.run Joint.command joint
        (Machine.translated Plant.next (Plant.asks index) server.plant (server.events items))) := by
  have hplant := Plant.joint_run (show server.plant.robot.joints[index]? = some joint from h) (server.events items)
  rwa [← Server.plant_run] at hplant

/-- The servos on, a move of the second joint, one of the first, one of the second that its limits refuse, and a stop,
with control steps in between. -/
def Server.session : List Item :=
  [plainRequest .enable, .control, moveRequest 1 (Arith.ofInt 1), .control, moveRequest 0 (Arith.ofInt 2),
    moveRequest 1 (Arith.ofInt 90), .control, plainRequest .stop, .control]

theorem Server.run_joint_session :
    (Machine.run Server.next (bootScenario 2 (by decide)) session).robot.joints[1]? =
      some (Machine.run Joint.command (.ofLimits defaultLimits)
        [.enable, .setTargetPosition (Arith.ofInt 1), .update 1000000, .setTargetPosition (Arith.ofInt 90),
          .update 1000000]) := by
  have hasked : Machine.translated Plant.next (Plant.asks 1) (bootScenario 2 (by decide)).plant
      ((bootScenario 2 (by decide)).events session) =
        [.enable, .setTargetPosition (Arith.ofInt 1), .update 1000000, .setTargetPosition (Arith.ofInt 90),
          .update 1000000] := by decide +kernel
  rw [run_joint (bootScenario 2 (by decide)) 1 (.ofLimits defaultLimits) rfl session, hasked]

namespace PlantEvent

variable {F : Type*}

/-- The event neither stops the motion nor gives the joint at an index another target, and a control step takes
one period. -/
def LeavesAlone (index : Nat) (period : Int) : PlantEvent F → Prop
  | .control dt => dt = period
  | .moveJoint moved _ => moved ≠ index
  | .enable | .other => True
  | .disable | .home | .stop | .trigger => False

def isControl : PlantEvent F → Bool
  | .control _ => true
  | _ => false

end PlantEvent

namespace Plant

section
variable {F : Type*} [Arith F] {index : Nat} {period : Int}

theorem moving_next {plant : Plant F} (hmoving : plant.controller.state = .moving) {event : PlantEvent F}
    (h : event.LeavesAlone index period) : (plant.next event).controller.state = .moving := by
  cases event with
  | control dt => exact hmoving
  | other => exact hmoving
  | enable =>
      rw [next, ControllerStateMachine.state_enable, hmoving]
  | moveJoint moved target =>
      rw [next, moveJoint]
      split_ifs with hmoved
      · dsimp only
        cases ((plant.robot.joint moved hmoved).setTargetPosition target).1 with
        | error e => exact hmoving
        | ok done =>
            rw [hmoving]
            exact hmoving
      · exact hmoving
  | disable | home | stop | trigger => exact absurd h id

/-- To a joint that is left alone in motion, control steps are all there is. -/
theorem run_asks {plant : Plant F} (hmoving : plant.controller.state = .moving) {joint : Joint F}
    (henabled : joint.enabled = true) {event : PlantEvent F} (h : event.LeavesAlone index period) :
    Machine.run Joint.command joint (plant.asks index event) =
      if event.isControl then joint.update period else joint := by
  cases event with
  | control dt =>
      obtain rfl : dt = period := h
      rw [asks, if_pos hmoving]
      rfl
  | other => rfl
  | enable =>
      obtain ⟨limits, state, position, velocity, enabled, homed, faulted⟩ := joint
      obtain rfl : enabled = true := henabled
      rfl
  | moveJoint moved target =>
      rw [asks, if_neg h]
      rfl
  | disable | home | stop | trigger => exact absurd h id

theorem joint_run_of_leavesAlone {plant : Plant F} (hmoving : plant.controller.state = .moving) {joint : Joint F}
    (hjoint : plant.robot.joints[index]? = some joint) (henabled : joint.enabled = true)
    {events : List (PlantEvent F)} (h : ∀ event ∈ events, event.LeavesAlone index period) :
    (Machine.run next plant events).robot.joints[index]? =
      some ((·.update period)^[events.countP PlantEvent.isControl] joint) := by
  induction events generalizing plant joint with
  | nil => exact hjoint
  | cons event events ih =>
      obtain ⟨hevent, hevents⟩ := List.forall_mem_cons.1 h
      have hnext : (plant.next event).robot.joints[index]? =
          some (if event.isControl then joint.update period else joint) := by
        rw [joints_next, List.getElem?_mapIdx, hjoint, Option.map_some, run_asks hmoving henabled hevent]
      rw [Machine.run_cons, List.countP_cons]
      cases hcontrol : event.isControl with
      | true =>
          rw [hcontrol, if_pos rfl] at hnext
          rw [ih (moving_next hmoving hevent) hnext ((joint.enabled_update period).trans henabled) hevents,
            if_pos rfl, Function.iterate_succ_apply]
      | false =>
          rw [hcontrol, if_neg Bool.false_ne_true] at hnext
          rw [ih (moving_next hmoving hevent) hnext henabled hevents, if_neg Bool.false_ne_true, add_zero]

end

end Plant

section
variable {K : Type*} [Field K] [LinearOrder K]

/-- The most energy that a joint within its limits has. -/
def JointLimits.maxEnergy (limits : JointLimits K) : K :=
  limits.maxVelocity * limits.maxVelocity +
    (limits.maxAcceleration + limits.maxAcceleration) * (limits.maxPosition - limits.minPosition)

variable [IsStrictOrderedRing K]

theorem Joint.Pursuing.energy_le_maxEnergy {joint : Joint K} (h : joint.Pursuing) :
    joint.energy ≤ joint.limits.maxEnergy := by
  obtain ⟨⟨hmin, hmax⟩, hmin', hmax'⟩ := h.inLimits
  have hacceleration := (JointLimits.pos_of_validate h.valid).2
  have hkinetic := mul_self_le_mul_self (abs_nonneg _) h.rated.rates.1
  rw [abs_mul_abs_self] at hkinetic
  have hdistance : |joint.error| ≤ joint.limits.maxPosition - joint.limits.minPosition := by
    rw [Joint.error]
    exact abs_sub_le_iff.2 ⟨by linarith, by linarith⟩
  have hpotential := mul_le_mul_of_nonneg_left hdistance (add_pos hacceleration hacceleration).le
  unfold Joint.energy Pursuit.energy JointLimits.maxEnergy
  linarith

theorem Joint.exists_arrival [Archimedean K] {limits : JointLimits K} (hvalid : limits.validate = .ok ()) {dt : Int}
    (hpos : 0 < dt) (hle : dt ≤ 125000000) {ε : K} (hε : 0 < ε) :
    ∃ N : ℕ, ∀ joint : Joint K, joint.limits = limits → joint.Pursuing → ∀ n ≥ N,
      |((·.update dt)^[n] joint).error| ≤ ε := by
  obtain ⟨hvelocity, hacceleration⟩ := JointLimits.pos_of_validate hvalid
  have ht := seconds_pos (K := K) hpos
  have hquantum : 0 < Pursuit.quantum limits.maxVelocity limits.maxAcceleration (seconds dt) := by
    have hchange := mul_pos hacceleration ht
    exact mul_pos hchange (lt_min hchange hvelocity)
  obtain ⟨n, hn⟩ := exists_nat_gt (limits.maxEnergy /
    Pursuit.quantum limits.maxVelocity limits.maxAcceleration (seconds dt))
  rw [div_lt_iff₀ hquantum] at hn
  obtain ⟨m, hm⟩ := exists_pow_lt_of_lt_one (div_pos (mul_pos (show (0 : K) < 8 by norm_num) hε) hvelocity)
    (show 1 - 8 * (seconds dt : K) < 1 by linarith)
  rw [lt_div_iff₀ hvelocity] at hm
  refine ⟨n + m, fun joint hlimits hpursuing k hk => ?_⟩
  have henergy : joint.energy < n * joint.quantum (seconds dt) := by
    rw [Joint.quantum, hlimits]
    refine lt_of_le_of_lt ?_ hn
    rw [← hlimits]
    exact hpursuing.energy_le_maxEnergy
  obtain ⟨-, herror⟩ := hpursuing.approaches hpos hle henergy (k - n)
  have hshare : 0 ≤ 1 - 8 * (seconds dt : K) := by linarith [Joint.seconds_le_eighth (K := K) hle]
  have hpow := pow_le_pow_of_le_one hshare (by linarith) (show m ≤ k - n by omega)
  have hscaled := mul_le_mul_of_nonneg_right hpow hvelocity.le
  rw [Nat.add_sub_of_le (by omega), hlimits] at herror
  linarith

/-- **An accepted move arrives.** There is a number of control steps, depending on the limits, the period and the
precision alone, such that in every state of every run a joint that is enabled while the robot moves is within
that precision of its target once so many control steps have been taken, in any order with connects, status
requests, refused requests, further enables and moves of the other joints. -/
theorem Plant.arrives [Archimedean K] (limits : JointLimits K) (hvalid : limits.validate = .ok ())
    (hspan : limits.SpanZero) (period : Int) (hpos : 0 < period) (hle : period ≤ 125000000) (ε : K) (hε : 0 < ε) :
    ∃ N : ℕ, ∀ (config : RobotConfig K) (h : config.validate = .ok ()) (before later : List (PlantEvent K))
      (index : Nat) (joint : Joint K),
      let plant := Machine.run Plant.next (Plant.boot config h) before
      plant.controller.state = .moving → plant.robot.joints[index]? = some joint → joint.limits = limits →
        joint.enabled = true → (∀ event ∈ later, event.LeavesAlone index period) →
          N ≤ later.countP PlantEvent.isControl →
            ∃ joint', (Machine.run Plant.next plant later).robot.joints[index]? = some joint' ∧
              joint'.targetPosition = joint.targetPosition ∧ |joint'.error| ≤ ε := by
  obtain ⟨N, hN⟩ := Joint.exists_arrival hvalid hpos hle hε
  refine ⟨N, ?_⟩
  intro config h before later index joint plant hmoving hjoint hlimits henabled hlater hcount
  have hserved : joint.Served :=
    (Plant.served_throughout h before).last joint (List.mem_of_getElem? hjoint)
  refine ⟨_, Plant.joint_run_of_leavesAlone hmoving hjoint henabled hlater, ?_, ?_⟩
  · exact Joint.targetPosition_iterate joint period _
  · exact hN joint hlimits (hserved.pursuing henabled (hlimits ▸ hspan)) _ hcount

/-- A joint set in motion from its zero. -/
theorem Plant.arrives_enabled :
    ∃ N : ℕ, ∀ later : List (PlantEvent ℚ), (∀ event ∈ later, event.LeavesAlone 0 1000000) →
      N ≤ later.countP PlantEvent.isControl →
        ∃ joint', (Machine.run Plant.next (Plant.boot ⟨"", [⟨-3, 3, 2, 5⟩]⟩ (by decide))
            ([.enable, .moveJoint 0 1] ++ later)).robot.joints[0]? = some joint' ∧
          joint'.targetPosition = 1 ∧ |joint'.error| ≤ 1 / 1000 := by
  obtain ⟨N, hN⟩ := arrives (K := ℚ) ⟨-3, 3, 2, 5⟩ (by decide) ⟨by decide, by decide⟩ 1000000 (by decide) (by decide)
    (1 / 1000) (by norm_num)
  refine ⟨N, fun later hlater hcount => ?_⟩
  rw [Machine.run_concat]
  exact hN ⟨"", [⟨-3, 3, 2, 5⟩]⟩ (by decide) [.enable, .moveJoint 0 1] later 0
    { Joint.ofLimits ⟨-3, 3, 2, 5⟩ with targetPosition := 1, enabled := true } (by decide) rfl rfl rfl hlater hcount

end
end RobotEmu
