import RobotEmu.ServerPlant

/-! The velocity that is reported of a joint that is held still. A control step outside of motion, or with the
joint disabled, leaves the joint as it is, its stored velocity included; what is reported afterwards is the
velocity of the last step that moved it. -/

namespace RobotEmu

namespace Plant

variable {F : Type*} [Arith F]

/-- A control step leaves the joint where it is. -/
def Holds (plant : Plant F) (joint : Joint F) : Prop :=
  plant.controller.state ≠ .moving ∨ joint.enabled = false

instance (plant : Plant F) (joint : Joint F) : Decidable (plant.Holds joint) :=
  inferInstanceAs (Decidable (_ ∨ _))

/-- The velocities of a status report. -/
def velocities (plant : Plant F) : List F := plant.robot.joints.map (·.state.velocity)

theorem length_velocities_control (plant : Plant F) (period : Int) :
    (plant.next (.control period)).velocities.length = plant.robot.joints.length := by
  rw [next, velocities, List.length_map]
  split_ifs
  · rw [Robot.joints_update, List.length_map]
  · rfl

theorem joint_control_of_holds {plant : Plant F} {index : Nat} {joint : Joint F}
    (h : plant.robot.joints[index]? = some joint) (hholds : plant.Holds joint) (period : Int) :
    (plant.next (.control period)).robot.joints[index]? = some joint := by
  rw [next]
  by_cases hmoving : plant.controller.state = .moving
  · rcases hholds with hstill | hdisabled
    · exact absurd hmoving hstill
    · rw [if_pos hmoving, Robot.joints_update, List.getElem?_map, h, Option.map_some,
        Joint.update_of_disabled hdisabled]
  · rw [if_neg hmoving, h]

/-- Apart from control steps, what changes a velocity sets it to zero. -/
theorem velocities_next (plant : Plant F) {event : PlantEvent F} (h : ∀ period, event ≠ .control period) :
    (plant.next event).velocities = plant.velocities ∨
      (plant.next event).velocities = plant.velocities.map fun _ => Arith.ofInt 0 := by
  have hmap : ∀ command : Joint F → Joint F,
      (∀ joint, (command joint).state.velocity = joint.state.velocity) →
        (plant.robot.joints.map command).map (·.state.velocity) = plant.velocities := by
    intro command hcommand
    rw [List.map_map]
    exact List.map_congr_left fun joint _ => hcommand joint
  cases event with
  | control period => exact absurd rfl (h period)
  | enable => exact .inl (hmap _ fun _ => rfl)
  | disable => exact .inl (hmap _ fun _ => rfl)
  | home =>
      right
      rw [next, velocities, velocities, Robot.joints_forJoints, List.map_map, List.map_map]
      rfl
  | moveJoint index target =>
      left
      rw [next, moveJoint]
      by_cases hindex : index < plant.robot.jointCount
      · have hset : (plant.robot.joints.set index
            ((plant.robot.joint index hindex).setTargetPosition target).2).map (·.state.velocity)
              = plant.velocities := by
          have hvelocity : ((plant.robot.joint index hindex).setTargetPosition target).2.state.velocity
              = (plant.robot.joint index hindex).state.velocity := by
            rcases (plant.robot.joint index hindex).setTargetPosition_cases target with
              ⟨hset, -⟩ | ⟨e, hset, -⟩
            · rw [hset]
            · rw [hset]
          have hlength : index < (plant.robot.joints.map (·.state.velocity)).length := by
            rwa [List.length_map]
          have hsame : (plant.robot.joint index hindex).state.velocity
              = (plant.robot.joints.map (·.state.velocity))[index] := by
            rw [List.getElem_map]
            rfl
          rw [List.map_set, hvelocity, hsame, List.set_getElem_self]
          rfl
        rw [dif_pos hindex]
        dsimp only
        cases ((plant.robot.joint index hindex).setTargetPosition target).1 with
        | error e => exact hset
        | ok done =>
            dsimp only
            split_ifs
            · exact hset
            · exact hset
      · rw [dif_neg hindex]
  | stop | trigger | other => exact .inl rfl

end Plant

/-- A plant, and of each joint whether the last control step has held it still. -/
structure Watched (F : Type*) [Arith F] where
  plant : Plant F
  held : Nat → Bool

namespace Watched

section
variable {F : Type*} [Arith F]

def boot (config : RobotConfig F) (h : config.validate = .ok ()) : Watched F := ⟨.boot config h, fun _ => false⟩

def next (watched : Watched F) (event : PlantEvent F) : Watched F where
  plant := watched.plant.next event
  held index :=
    match event, watched.plant.robot.joints[index]? with
    | .control _, some joint => decide (watched.plant.Holds joint)
    | _, _ => watched.held index

variable (zero : F → Prop)

/-- A status report says that the joints held still are at rest. -/
def ReportsRest (watched : Watched F) : Prop :=
  ∀ index velocity, watched.plant.velocities[index]? = some velocity → watched.held index = true → zero velocity

/-- A control step holds still only joints that are at rest. -/
def HoldsAtRest (watched : Watched F) : PlantEvent F → Prop
  | .control _ => ∀ joint ∈ watched.plant.robot.joints, watched.plant.Holds joint → zero joint.state.velocity
  | _ => True

instance [DecidablePred zero] (watched : Watched F) :
    (event : PlantEvent F) → Decidable (watched.HoldsAtRest zero event)
  | .control _ => inferInstanceAs (Decidable (∀ joint ∈ watched.plant.robot.joints, _ → _))
  | .enable | .disable | .home | .moveJoint _ _ | .stop | .trigger | .other => .isTrue trivial

variable {zero}

/-- A control step keeps the reports true exactly if it holds still only joints at rest. -/
theorem reportsRest_control_iff (watched : Watched F) (period : Int) :
    (watched.next (.control period)).ReportsRest zero ↔ watched.HoldsAtRest zero (.control period) := by
  have hheld : ∀ {index : Nat} {joint : Joint F}, watched.plant.robot.joints[index]? = some joint →
      (watched.next (.control period)).held index = decide (watched.plant.Holds joint) := by
    intro index joint hjoint
    simp only [next, hjoint]
  have hvelocity : ∀ {index : Nat} {joint : Joint F},
      watched.plant.robot.joints[index]? = some joint → watched.plant.Holds joint →
        (watched.next (.control period)).plant.velocities[index]? = some joint.state.velocity := by
    intro index joint hjoint hholds
    simp only [next, Plant.velocities, List.getElem?_map, Plant.joint_control_of_holds hjoint hholds,
      Option.map_some]
  constructor
  · intro hreports joint hmem hholds
    obtain ⟨index, hjoint⟩ := List.mem_iff_getElem?.1 hmem
    refine hreports index _ (hvelocity hjoint hholds) ?_
    rw [hheld hjoint, decide_eq_true hholds]
  · intro hrest index velocity hindex hheldIndex
    have hlength := (List.getElem?_eq_some_iff.1 hindex).1
    change index < (watched.plant.next (.control period)).velocities.length at hlength
    rw [Plant.length_velocities_control] at hlength
    have hjoint := List.getElem?_eq_getElem hlength
    rw [hheld hjoint] at hheldIndex
    have hholds := of_decide_eq_true hheldIndex
    rw [hvelocity hjoint hholds] at hindex
    rw [← Option.some.inj hindex]
    exact hrest _ (List.getElem_mem hlength) hholds

/-- What is not a control step keeps the reports true. -/
theorem reportsRest_next_of_other (hzero : zero (Arith.ofInt 0)) {watched : Watched F} {event : PlantEvent F}
    (hevent : ∀ period, event ≠ .control period) (h : watched.ReportsRest zero) :
    (watched.next event).ReportsRest zero := by
  intro index velocity hindex hheld
  have hheld' : watched.held index = true := by
    cases event with
    | control period => exact absurd rfl (hevent period)
    | _ => exact hheld
  change (watched.plant.next event).velocities[index]? = _ at hindex
  rcases watched.plant.velocities_next hevent with hsame | hzeroed
  · rw [hsame] at hindex
    exact h index velocity hindex hheld'
  · rw [hzeroed, List.getElem?_map] at hindex
    obtain ⟨_, -, rfl⟩ := Option.map_eq_some_iff.1 hindex
    exact hzero

theorem reportsRest_next_iff (hzero : zero (Arith.ofInt 0)) (watched : Watched F) (event : PlantEvent F)
    (h : watched.ReportsRest zero) : (watched.next event).ReportsRest zero ↔ watched.HoldsAtRest zero event := by
  cases event with
  | control period => exact watched.reportsRest_control_iff period
  | enable | disable | home | moveJoint | stop | trigger | other =>
      exact ⟨fun _ => trivial, fun _ => reportsRest_next_of_other hzero nofun h⟩

/-- A run's reports are true exactly if every control step holds still only joints at rest. -/
theorem throughout_reportsRest_iff (hzero : zero (Arith.ofInt 0)) (config : RobotConfig F)
    (h : config.validate = .ok ()) (events : List (PlantEvent F)) :
    Machine.Throughout next (ReportsRest zero) (boot config h) events ↔
      Machine.Along next (HoldsAtRest zero) (boot config h) events :=
  Machine.throughout_iff_along (A := fun _ => True)
    (fun watched event _ hreports => ⟨trivial, reportsRest_next_iff hzero watched event hreports⟩) trivial
    fun _ _ _ hheld => absurd hheld Bool.false_ne_true

end

/-- **Reported velocities, in exact arithmetic.** Throughout a run a joint that the last control step has
held still is reported to be at rest exactly if no control step of the run holds still a joint whose stored
velocity is not zero. -/
theorem reportsRest_iff {K : Type*} [Field K] [LinearOrder K] (config : RobotConfig K)
    (h : config.validate = .ok ()) (events : List (PlantEvent K)) :
    Machine.Throughout next (ReportsRest (· = 0)) (boot config h) events ↔
      Machine.Along next (HoldsAtRest (· = 0)) (boot config h) events :=
  throughout_reportsRest_iff Arith.ofInt_zero config h events

theorem reportsRest_iff_moved :
    Machine.Throughout next (ReportsRest (· = 0)) (boot (⟨"", [⟨-1, 1, 2, 5⟩]⟩ : RobotConfig ℚ) (by decide))
      [.enable, .moveJoint 0 1, .control 1000000, .home, .stop, .control 1000000] :=
  (reportsRest_iff _ (by decide) _).2 (by decide +kernel)

/-- A joint that has begun to move keeps its velocity through `Stop`. -/
theorem not_reportsRest : ¬∀ (config : RobotConfig ℚ) (h : config.validate = .ok ())
    (events : List (PlantEvent ℚ)),
    Machine.Throughout next (ReportsRest (· = 0)) (boot config h) events := by
  intro hall
  have hrun := hall ⟨"", [⟨-1, 1, 2, 5⟩]⟩ (by decide)
    [.enable, .moveJoint 0 1, .control 1000000, .stop, .control 1000000]
  have hlast := hrun.2.2.2.2.2 0 (1 / 200) (by decide +kernel) (by decide +kernel)
  exact absurd hlast (by decide +kernel)

theorem plant_run {F : Type*} [Arith F] (watched : Watched F) (events : List (PlantEvent F)) :
    (Machine.run next watched events).plant = Machine.run Plant.next watched.plant events := by
  induction events generalizing watched with
  | nil => rfl
  | cons event events ih => exact ih (watched.next event)

end Watched

namespace Server

/-- Zero of either sign. -/
def IsZero (x : Binary64) : Prop := Arith.StdEq x (Arith.ofInt 0)

theorem velocities_statusPayload (server : Server) :
    server.statusPayload.joints.map (·.velocityRadiansPerSecond) = server.plant.velocities := by
  rw [statusPayload, List.map_map]
  rfl

/-- The same of the answers of the server, in doubles: after a run that holds still only joints at rest, the
report that a `GetStatus` request is answered with gives a joint held still the velocity zero. -/
theorem isZero_statusPayload (config : RobotConfig Binary64) (h : config.validate = .ok ())
    (brakes : List VirtualBrake) (items : List Item)
    (hrest : Machine.Along Watched.next (Watched.HoldsAtRest IsZero) (Watched.boot config h)
      ((boot config h brakes).events items)) {index : Nat} {velocity : Binary64}
    (hheld : (Machine.run Watched.next (Watched.boot config h)
      ((boot config h brakes).events items)).held index = true)
    (hvelocity : ((Machine.run next (boot config h brakes) items).statusPayload.joints.map
      (·.velocityRadiansPerSecond))[index]? = some velocity) : IsZero velocity := by
  have hzero : IsZero (Binary64.ofInt 0) := ⟨by decide, by decide⟩
  have hlast := ((Watched.throughout_reportsRest_iff hzero config h _).2 hrest).last
  refine hlast index velocity ?_ hheld
  rw [Watched.plant_run]
  rw [velocities_statusPayload, plant_run] at hvelocity
  exact hvelocity

end Server
end RobotEmu
