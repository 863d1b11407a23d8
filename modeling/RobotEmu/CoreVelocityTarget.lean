import RobotEmu.CoreRates
import RobotEmu.Ramp

/-! Velocity targets in exact arithmetic. An accepted velocity target is stored and never looked at: what
`update` ramps the velocity towards is the velocity that the position error asks for. So a target takes
effect only where the two ask for the same change. -/

namespace RobotEmu

open Arith Ramp

/-- A joint, and the velocity it was last told to reach: no position was accepted and no `home` run since. -/
structure Commanded (F : Type*) where
  joint : Joint F
  velocityTarget : Option F

namespace Commanded

def ofLimits {F : Type*} [Arith F] (limits : JointLimits F) : Commanded F := ⟨.ofLimits limits, none⟩

def command {F : Type*} [Arith F] (commanded : Commanded F) (command : JointCommand F) : Commanded F where
  joint := commanded.joint.command command
  velocityTarget :=
    match command with
    | .home => none
    | .setTargetPosition position =>
        match (commanded.joint.setTargetPosition position).1 with
        | .ok _ => none
        | .error _ => commanded.velocityTarget
    | .setTargetVelocity velocity =>
        match (commanded.joint.setTargetVelocity velocity).1 with
        | .ok _ => some velocity
        | .error _ => commanded.velocityTarget
    | _ => commanded.velocityTarget

variable {K : Type*} [Field K] [LinearOrder K]

/-- An update over a positive time of an enabled joint with a velocity target, that does not end on a
position bound. -/
structure Ramps (commanded : Commanded K) (dt : Int) (w : K) : Prop where
  accepted : commanded.velocityTarget = some w
  enabled : commanded.joint.enabled = true
  faulted : commanded.joint.faulted = false
  positive : 0 < dt
  ne_max : (commanded.joint.update dt).state.position ≠ commanded.joint.limits.maxPosition
  ne_min : (commanded.joint.update dt).state.position ≠ commanded.joint.limits.minPosition

/-- The most the velocity can change over `dt` nanoseconds. -/
def maxChange (commanded : Commanded K) (dt : Int) : K :=
  commanded.joint.limits.maxAcceleration * Joint.seconds dt

/-- The update moves the velocity towards the target as far as the acceleration limit lets it. -/
def TakesEffect (commanded : Commanded K) : JointCommand K → Prop
  | .update dt => ∀ w, commanded.Ramps dt w →
      MovesTowards commanded.joint.state.velocity w (commanded.maxChange dt)
        (commanded.joint.update dt).state.velocity
  | _ => True

/-- The velocity the position error asks for, within the velocity limit. -/
def demand (commanded : Commanded K) : K :=
  max (-commanded.joint.limits.maxVelocity)
    (min (Joint.kPositionGain * (commanded.joint.targetPosition - commanded.joint.state.position))
      commanded.joint.limits.maxVelocity)

/-- The position error asks for the velocity target, or for a velocity that, like the target, is out of
reach of the update on the same side. -/
def Agrees (commanded : Commanded K) : JointCommand K → Prop
  | .update dt => ∀ w, commanded.Ramps dt w →
      let v := commanded.joint.state.velocity
      let change := commanded.maxChange dt
      commanded.demand = w ∨ (v + change ≤ commanded.demand ∧ v + change ≤ w) ∨
        (commanded.demand ≤ v - change ∧ w ≤ v - change)
  | _ => True

/-- What the updates of a run do with velocity targets: each takes effect, and any stretch of them whose
changes add up to the distance ends with the target reached. -/
structure Obeys (limits : JointLimits K) (commands : List (JointCommand K)) : Prop where
  each : Machine.Along command TakesEffect (ofLimits limits) commands
  reached : ∀ (before after : List (JointCommand K)) (dts : List Int) (w : K),
    commands = before ++ (dts.map JointCommand.update ++ after) →
    let start := Machine.run command (ofLimits limits) before
    Machine.Along command (fun commanded item => ∃ dt, item = .update dt ∧ commanded.Ramps dt w) start
      (dts.map JointCommand.update) →
    |w - start.joint.state.velocity| ≤ limits.maxAcceleration * (dts.map Joint.seconds).sum →
    (Machine.run command start (dts.map JointCommand.update)).joint.state.velocity = w

variable [IsStrictOrderedRing K] {limits : JointLimits K}

theorem rated_command (hvalid : limits.validate = .ok ()) (commanded : Commanded K) (item : JointCommand K)
    (h : Joint.Rated limits commanded.joint) : Joint.Rated limits (commanded.command item).joint :=
  (h.command hvalid item).1

theorem rated_ofLimits (hvalid : limits.validate = .ok ()) : Joint.Rated limits (ofLimits limits).joint :=
  .of_rest hvalid rfl ⟨rfl, rfl⟩

theorem maxChange_pos (hvalid : limits.validate = .ok ()) {commanded : Commanded K}
    (h : Joint.Rated limits commanded.joint) {dt : Int} (hdt : 0 < dt) : 0 < commanded.maxChange dt := by
  rw [maxChange, h.limits_eq]
  exact mul_pos (JointLimits.pos_of_validate hvalid).2 (Joint.seconds_pos hdt)

/-- What an update does to the velocity, as long as it does not end on a bound. -/
theorem velocity_update (hvalid : limits.validate = .ok ()) {commanded : Commanded K}
    (h : Joint.Rated limits commanded.joint) {dt : Int} {w : K} (hramps : commanded.Ramps dt w) :
    (commanded.joint.update dt).state.velocity = commanded.joint.state.velocity
      + stdClamp (commanded.demand - commanded.joint.state.velocity) (-commanded.maxChange dt)
          (commanded.maxChange dt) := by
  obtain ⟨-, henabled, hfaulted, hdt, hmax, hmin⟩ := hramps
  have hvelocity : 0 ≤ commanded.joint.limits.maxVelocity := by
    rw [h.limits_eq]
    exact (JointLimits.pos_of_validate hvalid).1.le
  have hrate : |commanded.joint.state.velocity| ≤ commanded.joint.limits.maxVelocity := by
    rw [h.limits_eq]
    exact h.rates.1
  rw [Joint.update_of_pos henabled hfaulted hdt] at hmax hmin ⊢
  rw [Joint.clampToLimits_of_ne hmax hmin]
  change commanded.joint.nextVelocity (Joint.seconds dt) = _
  rw [Joint.nextVelocity_eq hrate (maxChange_pos hvalid h hdt).le, Joint.deltaVelocity,
    Joint.desiredVelocity_eq hvelocity]
  rfl

/-- One update: the velocity target takes effect exactly if the position error agrees with it. -/
theorem takesEffect_iff_agrees (hvalid : limits.validate = .ok ()) (commanded : Commanded K)
    (item : JointCommand K) (h : Joint.Rated limits commanded.joint) :
    commanded.TakesEffect item ↔ commanded.Agrees item := by
  cases item with
  | update dt =>
      refine forall_congr' fun w => forall_congr' fun hramps => ?_
      have hchange := maxChange_pos hvalid h hramps.positive
      rw [movesTowards_iff hchange.le, velocity_update hvalid h hramps, add_right_inj,
        stdClamp_sub_eq_iff hchange]
  | _ => rfl

theorem sum_seconds_nonneg {start : Commanded K} {dts : List Int} {w : K}
    (hramps : Machine.Along command (fun commanded item => ∃ dt, item = .update dt ∧ commanded.Ramps dt w)
      start (dts.map JointCommand.update)) : 0 ≤ (dts.map (Joint.seconds (F := K))).sum := by
  induction dts generalizing start with
  | nil => exact le_refl 0
  | cons dt dts ih =>
      obtain ⟨⟨dt', hdt, hfirst⟩, hlater⟩ := hramps
      obtain rfl := JointCommand.update.inj hdt
      rw [List.map_cons, List.sum_cons]
      exact add_nonneg (Joint.seconds_pos hfirst.positive).le (ih hlater)

/-- Updates that take effect reach the target once their changes add up to the distance. -/
theorem velocity_run {start : Commanded K} {dts : List Int} {w : K} (hvalid : limits.validate = .ok ())
    (h : Joint.Rated limits start.joint)
    (heach : Machine.Along command TakesEffect start (dts.map JointCommand.update))
    (hramps : Machine.Along command (fun commanded item => ∃ dt, item = .update dt ∧ commanded.Ramps dt w)
      start (dts.map JointCommand.update))
    (hdistance : |w - start.joint.state.velocity| ≤ limits.maxAcceleration * (dts.map Joint.seconds).sum) :
    (Machine.run command start (dts.map JointCommand.update)).joint.state.velocity = w := by
  induction dts generalizing start with
  | nil =>
      rw [List.map_nil, List.sum_nil, mul_zero] at hdistance
      exact (sub_eq_zero.1 (abs_nonpos_iff.1 hdistance)).symm
  | cons dt dts ih =>
      obtain ⟨⟨dt', hdt, hramps⟩, hlater⟩ := hramps
      obtain rfl := JointCommand.update.inj hdt
      have hleft := (heach.1 w hramps).abs_sub
      apply ih (rated_command hvalid start (.update dt) h) heach.2 hlater
      have hacceleration := (JointLimits.pos_of_validate hvalid).2.le
      have hrest := mul_nonneg hacceleration (sum_seconds_nonneg hlater)
      rw [List.map_cons, List.sum_cons, mul_add] at hdistance
      rw [maxChange, h.limits_eq] at hleft
      refine hleft.trans_le (max_le ?_ hrest)
      linarith

/-- **Exactly the runs in which every position error agrees** with the velocity target obey it. -/
theorem obeys_iff (limits : JointLimits K) (h : limits.validate = .ok ())
    (commands : List (JointCommand K)) :
    Obeys limits commands ↔ Machine.Along command Agrees (ofLimits limits) commands := by
  have hiff := Machine.along_congr (rated_command h) (takesEffect_iff_agrees h) (rated_ofLimits h) commands
  constructor
  · exact fun hobeys => hiff.1 hobeys.each
  · intro hagrees
    refine ⟨hiff.2 hagrees, ?_⟩
    rintro before after dts w rfl start hramps hdistance
    have hall := Machine.along_append.1 (hiff.2 hagrees)
    have hrated : Joint.Rated limits start.joint :=
      Machine.run_invariant (rated_command h) (rated_ofLimits h) before
    exact velocity_run h hrated (Machine.along_append.1 hall.2).1 hramps hdistance

/-- A position target that asks for the velocity target. -/
theorem obeys_iff_agreeing :
    Obeys (⟨-1, 1, 2, 5⟩ : JointLimits ℚ)
      [.enable, .setTargetPosition 1, .setTargetVelocity 2, .update 1000000] := by
  refine (obeys_iff _ (by decide) _).2 ⟨trivial, trivial, trivial, fun w hramps => .inl ?_, trivial⟩
  have hw : some 2 = some w := hramps.accepted
  rw [← Option.some.inj hw]
  decide +kernel

/-- A joint at rest on its position target does not move for a velocity target. -/
theorem not_obeys : ¬∀ (limits : JointLimits ℚ) (_ : limits.validate = .ok ())
    (commands : List (JointCommand ℚ)), Obeys limits commands := by
  intro hall
  have hobeys := hall ⟨-1, 1, 2, 5⟩ (by decide) [.enable, .setTargetVelocity 1, .update 1000000]
  have hmoves := hobeys.each.2.2.1 1 ⟨rfl, rfl, rfl, by decide, by decide +kernel, by decide +kernel⟩
  have hlength := hmoves.length
  revert hlength
  decide +kernel

end Commanded
end RobotEmu
