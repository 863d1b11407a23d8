import Mathlib.Algebra.Order.Ring.Rat
import Mathlib.Algebra.Field.Rat
import RobotEmu.Machine
import RobotEmu.CoreJoint
import RobotEmu.Ramp

/-! Rate limits in exact arithmetic. The velocity of a joint is ramped towards a setpoint, capped, and
rewritten once more where the position is clamped; whatever commands are run on the joint, velocity and
acceleration stay within its limits, and an update moves the joint no faster than they allow. -/

namespace RobotEmu

open Arith

/-- What the owner of a joint can do with it. -/
inductive JointCommand (F : Type*) where
  | enable
  | disable
  | home
  | setTargetPosition (position : F)
  | setTargetVelocity (velocity : F)
  | update (dt : Int)
  deriving DecidableEq

def Joint.command {F : Type*} [Arith F] (joint : Joint F) : JointCommand F → Joint F
  | .enable => joint.enable
  | .disable => joint.disable
  | .home => joint.home
  | .setTargetPosition position => (joint.setTargetPosition position).2
  | .setTargetVelocity velocity => (joint.setTargetVelocity velocity).2
  | .update dt => joint.update dt

namespace Joint

variable {K : Type*} [Field K] [LinearOrder K]

/-- Velocity and acceleration are within the limits. -/
def WithinRates (limits : JointLimits K) (joint : Joint K) : Prop :=
  |joint.state.velocity| ≤ limits.maxVelocity ∧ |joint.state.acceleration| ≤ limits.maxAcceleration

/-- The joint ends exactly on a position bound with a velocity that does not point outward. -/
def AtBound (limits : JointLimits K) (joint : Joint K) : Prop :=
  joint.state.position = limits.maxPosition ∧ joint.state.velocity ≤ 0 ∨
    joint.state.position = limits.minPosition ∧ 0 ≤ joint.state.velocity

/-- The joint has moved over `t` seconds with the velocity it ends with, and the velocity has changed no
more than the acceleration limit allows. -/
def Advances (limits : JointLimits K) (joint joint' : Joint K) (t : K) : Prop :=
  joint'.state.position = joint.state.position + joint'.state.velocity * t ∧
    |joint'.state.velocity - joint.state.velocity| ≤ limits.maxAcceleration * t

/-- An update over a positive time moves an enabled joint that is not faulted within its limits; an
update over no or negative time, or of a disabled joint, changes nothing. -/
def UpdatesWithinRates (limits : JointLimits K) (joint : Joint K) : JointCommand K → Prop
  | .update dt =>
      (0 < dt → joint.enabled = true → joint.faulted = false →
        Advances limits joint (joint.update dt) (seconds dt) ∨ AtBound limits (joint.update dt)) ∧
      (dt ≤ 0 ∨ joint.enabled = false → joint.update dt = joint)
  | _ => True

/-- A joint within its rates, and its limits still those it was created with. -/
structure Rated (limits : JointLimits K) (joint : Joint K) : Prop where
  limits_eq : joint.limits = limits
  rates : WithinRates limits joint

theorem Rated.of_state {limits : JointLimits K} {joint joint' : Joint K} (h : Rated limits joint)
    (hlimits : joint'.limits = joint.limits) (hstate : joint'.state = joint.state) :
    Rated limits joint' where
  limits_eq := hlimits.trans h.limits_eq
  rates := by
    unfold WithinRates
    rw [hstate]
    exact h.rates

theorem update_of_faulted {joint : Joint K} (h : joint.faulted = true) (dt : Int) :
    joint.update dt = joint := by
  rw [Joint.update, h, Bool.or_true, if_pos rfl]

theorem clampToLimits_of_mem {joint : Joint K} (hmin : joint.limits.minPosition ≤ joint.state.position)
    (hmax : joint.state.position ≤ joint.limits.maxPosition) : joint.clampToLimits = joint := by
  rw [Joint.clampToLimits, if_neg (not_lt.2 hmax), if_neg (not_lt.2 hmin)]

/-- A position that is clamped ends on a bound. -/
theorem clampToLimits_of_ne {joint : Joint K}
    (hmax : joint.clampToLimits.state.position ≠ joint.limits.maxPosition)
    (hmin : joint.clampToLimits.state.position ≠ joint.limits.minPosition) : joint.clampToLimits = joint := by
  rw [Joint.clampToLimits] at hmax hmin ⊢
  split_ifs at hmax hmin ⊢
  · exact absurd rfl hmax
  · exact absurd rfl hmin
  · rfl

variable [IsStrictOrderedRing K]

theorem seconds_pos_iff {dt : Int} : ¬(seconds dt : K) ≤ ofInt 0 ↔ 0 < dt := by
  rw [ofInt_zero, not_le, seconds_eq]
  calc (0 : K) < dt / 1000000000 ↔ 0 < (dt : K) := div_pos_iff_of_pos_right (by norm_num)
    _ ↔ 0 < dt := Int.cast_pos

theorem seconds_pos {dt : Int} (h : 0 < dt) : 0 < (seconds dt : K) := by
  rw [← ofInt_zero, ← not_le]
  exact seconds_pos_iff.2 h

theorem Rated.of_rest {limits : JointLimits K} (hvalid : limits.validate = .ok ()) {joint : Joint K}
    (hlimits : joint.limits = limits)
    (hrest : joint.state.velocity = ofInt 0 ∧ joint.state.acceleration = ofInt 0) : Rated limits joint where
  limits_eq := hlimits
  rates := by
    obtain ⟨hvelocity, hacceleration⟩ := JointLimits.pos_of_validate hvalid
    rw [WithinRates, hrest.1, hrest.2, ofInt_zero, abs_zero]
    exact ⟨hvelocity.le, hacceleration.le⟩

/-- The ramp and the cap, before the position is clamped. -/
theorem Rated.integrate {limits : JointLimits K} (hvalid : limits.validate = .ok ()) {joint : Joint K}
    (h : Rated limits joint) {t : K} (ht : 0 < t) :
    Rated limits (joint.integrate t) ∧ Advances limits joint (joint.integrate t) t := by
  obtain ⟨rfl, hrate, -⟩ := h
  obtain ⟨hvelocity, hacceleration⟩ := JointLimits.pos_of_validate hvalid
  have hdelta : |joint.deltaVelocity t| ≤ joint.limits.maxAcceleration * t :=
    abs_stdClamp_le (mul_pos hacceleration ht).le
  have hnext : |joint.nextVelocity t| ≤ joint.limits.maxVelocity := abs_stdClamp_le hvelocity.le
  have hchange : |joint.nextVelocity t - joint.state.velocity| ≤ |joint.deltaVelocity t| := by
    calc |joint.nextVelocity t - joint.state.velocity|
        ≤ |joint.state.velocity + joint.deltaVelocity t - joint.state.velocity| :=
          abs_stdClamp_sub_le (abs_le.1 hrate).1 (abs_le.1 hrate).2
      _ = |joint.deltaVelocity t| := by rw [add_sub_cancel_left]
  have hacc : |joint.deltaVelocity t / t| ≤ joint.limits.maxAcceleration := by
    rw [abs_div, abs_of_pos ht, div_le_iff₀ ht]
    exact hdelta
  exact ⟨⟨rfl, hnext, hacc⟩, rfl, hchange.trans hdelta⟩

/-- Clamping the position takes the velocity to zero or leaves it, and only happens at a bound. -/
theorem Rated.clampToLimits {limits : JointLimits K} {joint : Joint K} (h : Rated limits joint) :
    Rated limits joint.clampToLimits ∧
      (joint.clampToLimits = joint ∨ AtBound limits joint.clampToLimits) := by
  obtain ⟨rfl, hrate, hacc⟩ := h
  unfold Joint.clampToLimits
  split_ifs with habove hbelow
  · obtain ⟨hinward, hle⟩ := stdMin_zero joint.state.velocity
    exact ⟨⟨rfl, hle.trans hrate, hacc⟩, .inr (.inl ⟨rfl, hinward⟩)⟩
  · obtain ⟨hinward, hle⟩ := stdMax_zero joint.state.velocity
    exact ⟨⟨rfl, hle.trans hrate, hacc⟩, .inr (.inr ⟨rfl, hinward⟩)⟩
  · exact ⟨⟨rfl, hrate, hacc⟩, .inl rfl⟩

/-! ### What the control law computes -/

theorem desiredVelocity_eq {joint : Joint K} (h : 0 ≤ joint.limits.maxVelocity) :
    joint.desiredVelocity = max (-joint.limits.maxVelocity)
      (min (kPositionGain * (joint.targetPosition - joint.state.position)) joint.limits.maxVelocity) := by
  rw [desiredVelocity, stdClamp_eq_max_min (neg_le_self h)]

/-- The cap on the velocity does nothing once the velocity is ramped. -/
theorem nextVelocity_eq {joint : Joint K} {t : K} (h : |joint.state.velocity| ≤ joint.limits.maxVelocity)
    (ht : 0 ≤ joint.limits.maxAcceleration * t) :
    joint.nextVelocity t = joint.state.velocity + joint.deltaVelocity t := by
  have hdesired : |joint.desiredVelocity| ≤ joint.limits.maxVelocity :=
    abs_stdClamp_le ((abs_nonneg _).trans h)
  exact Ramp.stdClamp_of_abs_le (Ramp.abs_add_stdClamp_le h hdesired ht)

theorem update_of_nonpos (joint : Joint K) {dt : Int} (h : dt ≤ 0) : joint.update dt = joint := by
  have hseconds : (seconds dt : K) ≤ ofInt 0 := by
    by_contra hpos
    exact absurd (seconds_pos_iff.1 hpos) (not_lt.2 h)
  rw [Joint.update, if_pos hseconds, ite_self]

theorem update_of_pos {joint : Joint K} (henabled : joint.enabled = true) (hfaulted : joint.faulted = false)
    {dt : Int} (h : 0 < dt) : joint.update dt = (joint.integrate (seconds dt)).clampToLimits := by
  rw [Joint.update, henabled, hfaulted, Bool.not_true, Bool.or_false, if_neg Bool.false_ne_true,
    if_neg (seconds_pos_iff.2 h)]

theorem Rated.update {limits : JointLimits K} (hvalid : limits.validate = .ok ()) {joint : Joint K}
    (h : Rated limits joint) (dt : Int) :
    Rated limits (joint.update dt) ∧ UpdatesWithinRates limits joint (.update dt) := by
  have hnothing : dt ≤ 0 ∨ joint.enabled = false → joint.update dt = joint := by
    rintro (hle | hdisabled)
    · exact joint.update_of_nonpos hle
    · exact update_of_disabled hdisabled dt
  by_cases hmoves : 0 < dt ∧ joint.enabled = true ∧ joint.faulted = false
  · obtain ⟨hpos, henabled, hfaulted⟩ := hmoves
    obtain ⟨hrated, hadvances⟩ := h.integrate hvalid (seconds_pos hpos)
    obtain ⟨hclamped, hbound⟩ := hrated.clampToLimits
    have heq := update_of_pos henabled hfaulted hpos
    rw [heq]
    refine ⟨hclamped, fun _ _ _ => ?_, hnothing⟩
    rw [heq]
    rcases hbound with hwithin | hbound
    · rw [hwithin]
      exact .inl hadvances
    · exact .inr hbound
  · have hsame : joint.update dt = joint := by
      rcases lt_or_ge 0 dt with hpos | hle
      · cases henabled : joint.enabled with
        | false => exact update_of_disabled henabled dt
        | true =>
            apply update_of_faulted
            rw [← Bool.not_eq_false]
            exact fun hfaulted => hmoves ⟨hpos, henabled, hfaulted⟩
      · exact joint.update_of_nonpos hle
    rw [hsame]
    exact ⟨h, fun hpos henabled hfaulted => absurd ⟨hpos, henabled, hfaulted⟩ hmoves, hnothing⟩

/-- One command on a joint within its rates. -/
theorem Rated.command {limits : JointLimits K} (hvalid : limits.validate = .ok ()) {joint : Joint K}
    (h : Rated limits joint) (command : JointCommand K) :
    Rated limits (joint.command command) ∧ UpdatesWithinRates limits joint command := by
  cases command with
  | enable => exact ⟨h.of_state rfl rfl, trivial⟩
  | disable => exact ⟨h.of_state rfl rfl, trivial⟩
  | home => exact ⟨.of_rest hvalid h.limits_eq ⟨rfl, rfl⟩, trivial⟩
  | setTargetPosition position =>
      refine ⟨h.of_state (joint.limits_setTargetPosition position) ?_, trivial⟩
      rcases joint.setTargetPosition_cases position with ⟨hset, -⟩ | ⟨e, hset, -⟩
      · rw [Joint.command, hset]
      · rw [Joint.command, hset]
  | setTargetVelocity velocity =>
      refine ⟨h.of_state (joint.limits_setTargetVelocity velocity) ?_, trivial⟩
      show (joint.setTargetVelocity velocity).2.state = joint.state
      unfold Joint.setTargetVelocity
      split_ifs <;> rfl
  | update dt => exact h.update hvalid dt

/-- In exact arithmetic a joint with limits that `validate` accepts is within its rates throughout any
run of commands, and each update moves it within them. -/
theorem withinRates_throughout (limits : JointLimits K) (h : limits.validate = .ok ())
    (commands : List (JointCommand K)) :
    Machine.Throughout Joint.command (WithinRates limits) (Joint.ofLimits limits) commands ∧
      Machine.Along Joint.command (UpdatesWithinRates limits) (Joint.ofLimits limits) commands := by
  have hstart : Rated limits (Joint.ofLimits limits) := .of_rest h rfl ⟨rfl, rfl⟩
  constructor
  · have hrun : Machine.Throughout Joint.command (Rated limits) (Joint.ofLimits limits) commands :=
      Machine.throughout_of_invariant (fun joint command hrated => (hrated.command h command).1) hstart
    exact hrun.mono fun joint hrated => hrated.rates
  · exact Machine.Along.of_invariant (q := fun _ _ => True)
      (fun joint command hrated _ => hrated.command h command) hstart
      (Machine.Along.of_forall (fun _ _ => trivial) _ commands)

theorem withinRates_throughout_started :
    Machine.Throughout Joint.command (WithinRates ⟨-1, 1, 2, 5⟩) (Joint.ofLimits (⟨-1, 1, 2, 5⟩ : JointLimits ℚ))
        [.enable, .setTargetPosition 1, .update 1000000, .update (-1)] ∧
      Machine.Along Joint.command (UpdatesWithinRates ⟨-1, 1, 2, 5⟩)
        (Joint.ofLimits (⟨-1, 1, 2, 5⟩ : JointLimits ℚ))
        [.enable, .setTargetPosition 1, .update 1000000, .update (-1)] :=
  withinRates_throughout _ (by decide) _

end Joint
end RobotEmu
