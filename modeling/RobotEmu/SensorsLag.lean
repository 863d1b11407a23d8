import RobotEmu.HardwareMotor
import RobotEmu.Lag
import RobotEmu.Machine

/-! `temperature_sensor.cpp`, and what it shares with the motor: both follow a target by the exact solution
of a first-order lag. In exact arithmetic it does not matter how time is sliced, and neither leaves the
range of the targets it has been given. -/

namespace RobotEmu

open Arith

structure TemperatureSensor (F : Type*) where
  celsius : F
  timeConstantS : F
  maxSafeCelsius : F

namespace TemperatureSensor

variable {F : Type*} [Arith F]

def create (ambientCelsius : F) (timeConstant : Int) (maxSafeCelsius : F) :
    Except HardwareError (TemperatureSensor F) :=
  if (Joint.seconds timeConstant : F) ≤ ofInt 0 then .error .invalidConfiguration
  else .ok ⟨ambientCelsius, Joint.seconds timeConstant, maxSafeCelsius⟩

/-- `update` over `dt` nanoseconds, with `std::exp`. -/
def update (exp : F → F) (sensor : TemperatureSensor F) (dt : Int) (targetCelsius : F) : TemperatureSensor F :=
  if (Joint.seconds dt : F) ≤ ofInt 0 then sensor
  else
    let alpha := exp (-Joint.seconds dt / sensor.timeConstantS)
    { sensor with celsius := targetCelsius + (sensor.celsius - targetCelsius) * alpha }

end TemperatureSensor

/-! ### Time steps -/

theorem seconds_nonpos_iff {dt : Int} : (Joint.seconds dt : ℝ) ≤ ofInt 0 ↔ dt ≤ 0 := by
  rw [ofInt_zero, Joint.seconds_eq, div_le_iff₀ (by norm_num), zero_mul, Int.cast_nonpos]

theorem seconds_pos_of_pos {dt : Int} (h : 0 < dt) : 0 < (Joint.seconds dt : ℝ) := by
  rw [← not_le, ← ofInt_zero, seconds_nonpos_iff]
  exact not_le.2 h

theorem seconds_add (s t : Int) : (Joint.seconds (s + t) : ℝ) = Joint.seconds s + Joint.seconds t := by
  rw [Joint.seconds_eq, Joint.seconds_eq, Joint.seconds_eq, Int.cast_add, add_div]

/-! ### The motor -/

namespace VirtualMotor

theorem update_of_nonpos (motor : VirtualMotor ℝ) {dt : Int} (h : dt ≤ 0) : motor.update Real.exp dt = motor :=
  if_pos (seconds_nonpos_iff.2 h)

theorem update_of_pos (motor : VirtualMotor ℝ) {dt : Int} (h : 0 < dt) : motor.update Real.exp dt =
    { motor with
      torque := Lag.follow motor.commandedTorque (Lag.decay motor.timeConstantS (Joint.seconds dt))
        motor.torque } :=
  if_neg fun hle => absurd (seconds_nonpos_iff.1 hle) (not_le.2 h)

theorem update_update (motor : VirtualMotor ℝ) {s t : Int} (hs : 0 < s) (ht : 0 < t) :
    (motor.update Real.exp s).update Real.exp t = motor.update Real.exp (s + t) := by
  rw [update_of_pos _ ht, update_of_pos _ hs, update_of_pos _ (by omega), Lag.follow_follow, seconds_add,
    Lag.decay_add]

inductive Call where
  | setCommandedTorque (torque : ℝ)
  | update (dt : Int)

noncomputable def step (motor : VirtualMotor ℝ) : Call → VirtualMotor ℝ
  | .setCommandedTorque torque => (motor.setCommandedTorque torque).2
  | .update dt => motor.update Real.exp dt

/-- Both torques lie within the limit of the configuration, and the time constant is positive. -/
structure Bounded (maxTorque : ℝ) (motor : VirtualMotor ℝ) : Prop where
  limit : motor.maxTorque = maxTorque
  timeConstant : 0 < motor.timeConstantS
  commanded : motor.commandedTorque ∈ Set.Icc (-maxTorque) maxTorque
  torque : motor.torque ∈ Set.Icc (-maxTorque) maxTorque

theorem bounded_of_create {maxTorque : ℝ} {timeConstant : Int} {motor : VirtualMotor ℝ}
    (h : create maxTorque timeConstant = .ok motor) : Bounded maxTorque motor := by
  rw [create] at h
  split_ifs at h with hmax hconstant
  obtain rfl := Except.ok.inj h
  rw [ofInt_zero, not_le] at hmax hconstant
  have hzero : (ofInt 0 : ℝ) ∈ Set.Icc (-maxTorque) maxTorque := by
    rw [ofInt_zero]
    exact ⟨by linarith, hmax.le⟩
  exact ⟨rfl, hconstant, hzero, hzero⟩

theorem Bounded.step {maxTorque : ℝ} {motor : VirtualMotor ℝ} (h : Bounded maxTorque motor) (call : Call) :
    Bounded maxTorque (step motor call) := by
  cases call with
  | setCommandedTorque torque =>
      rw [VirtualMotor.step, setCommandedTorque]
      split_ifs with hreject
      · exact h
      · rw [not_or, h.limit, not_lt, gt_iff_lt, not_lt] at hreject
        exact ⟨h.limit, h.timeConstant, hreject, h.torque⟩
  | update dt =>
      rw [VirtualMotor.step]
      by_cases hdt : 0 < dt
      · have hfollow := Lag.follow_mem (convex_Icc (-maxTorque) maxTorque) h.commanded h.torque
          (Lag.decay_pos motor.timeConstantS (Joint.seconds dt)).le
          (Lag.decay_lt_one h.timeConstant (seconds_pos_of_pos hdt)).le
        rw [update_of_pos motor hdt]
        exact ⟨h.limit, h.timeConstant, h.commanded, hfollow⟩
      · rwa [update_of_nonpos motor (not_lt.1 hdt)]

theorem Bounded.approaches {maxTorque : ℝ} {motor : VirtualMotor ℝ} (h : Bounded maxTorque motor) {dt : Int}
    (hdt : 0 < dt) :
    Lag.Approaches motor.commandedTorque motor.torque (motor.update Real.exp dt).torque := by
  rw [update_of_pos motor hdt]
  exact Lag.approaches_follow (Lag.decay_pos _ _) (Lag.decay_lt_one h.timeConstant (seconds_pos_of_pos hdt)) _ _

end VirtualMotor

/-! ### The temperature sensor -/

namespace TemperatureSensor

theorem update_of_nonpos (sensor : TemperatureSensor ℝ) {dt : Int} (h : dt ≤ 0) (target : ℝ) :
    sensor.update Real.exp dt target = sensor := if_pos (seconds_nonpos_iff.2 h)

theorem update_of_pos (sensor : TemperatureSensor ℝ) {dt : Int} (h : 0 < dt) (target : ℝ) :
    sensor.update Real.exp dt target =
      { sensor with
        celsius := Lag.follow target (Lag.decay sensor.timeConstantS (Joint.seconds dt)) sensor.celsius } :=
  if_neg fun hle => absurd (seconds_nonpos_iff.1 hle) (not_le.2 h)

theorem update_update (sensor : TemperatureSensor ℝ) {s t : Int} (hs : 0 < s) (ht : 0 < t) (target : ℝ) :
    (sensor.update Real.exp s target).update Real.exp t target = sensor.update Real.exp (s + t) target := by
  rw [update_of_pos _ ht, update_of_pos _ hs, update_of_pos _ (by omega), Lag.follow_follow, seconds_add,
    Lag.decay_add]

/-- A call of `update`. -/
structure Update where
  dt : Int
  targetCelsius : ℝ

noncomputable def step (sensor : TemperatureSensor ℝ) (update : Update) : TemperatureSensor ℝ :=
  sensor.update Real.exp update.dt update.targetCelsius

theorem timeConstantS_update (sensor : TemperatureSensor ℝ) (dt : Int) (target : ℝ) :
    (sensor.update Real.exp dt target).timeConstantS = sensor.timeConstantS := by
  rw [update]
  split_ifs <;> rfl

theorem timeConstantS_pos {ambient maxSafe : ℝ} {timeConstant : Int} {sensor : TemperatureSensor ℝ}
    (h : create ambient timeConstant maxSafe = .ok sensor) :
    sensor.celsius = ambient ∧ 0 < sensor.timeConstantS := by
  rw [create] at h
  split_ifs at h with hconstant
  obtain rfl := Except.ok.inj h
  rw [ofInt_zero, not_le] at hconstant
  exact ⟨rfl, hconstant⟩

theorem timeConstantS_run {sensor : TemperatureSensor ℝ} (h : 0 < sensor.timeConstantS)
    (updates : List Update) : 0 < (Machine.run step sensor updates).timeConstantS :=
  Machine.run_invariant (I := fun sensor : TemperatureSensor ℝ => 0 < sensor.timeConstantS)
    (fun sensor update hpos => (timeConstantS_update sensor update.dt update.targetCelsius).symm ▸ hpos) h updates

/-- A convex set that holds the temperature and the targets holds the temperature afterwards. -/
theorem celsius_run_mem {s : Set ℝ} (hs : Convex ℝ s) {sensor : TemperatureSensor ℝ}
    (hconstant : 0 < sensor.timeConstantS) (hcelsius : sensor.celsius ∈ s) (updates : List Update)
    (htargets : ∀ update ∈ updates, update.targetCelsius ∈ s) :
    (Machine.run step sensor updates).celsius ∈ s := by
  induction updates generalizing sensor with
  | nil => exact hcelsius
  | cons update updates ih =>
      rw [Machine.run_cons]
      apply ih
      · rwa [step, timeConstantS_update]
      · rw [step]
        by_cases hdt : 0 < update.dt
        · rw [update_of_pos sensor hdt]
          exact Lag.follow_mem hs (htargets update List.mem_cons_self) hcelsius (Lag.decay_pos _ _).le
            (Lag.decay_lt_one hconstant (seconds_pos_of_pos hdt)).le
        · rwa [update_of_nonpos sensor (not_lt.1 hdt)]
      · exact fun later hmem => htargets later (List.mem_cons_of_mem _ hmem)

theorem approaches_update {sensor : TemperatureSensor ℝ} (hconstant : 0 < sensor.timeConstantS) {dt : Int}
    (hdt : 0 < dt) (target : ℝ) :
    Lag.Approaches target sensor.celsius (sensor.update Real.exp dt target).celsius := by
  rw [update_of_pos sensor hdt]
  exact Lag.approaches_follow (Lag.decay_pos _ _) (Lag.decay_lt_one hconstant (seconds_pos_of_pos hdt)) _ _

end TemperatureSensor

/-- The lag of the motor and of the temperature sensor, after any sequence of calls: a list of positive time
steps does what one step of their sum does, the value stays within the limit, or the hull of what it was
given, and every step brings it strictly closer to its target. -/
theorem first_order_lag {maxTorque : ℝ} {motorTimeConstant : Int} {motor : VirtualMotor ℝ}
    (hmotor : VirtualMotor.create maxTorque motorTimeConstant = .ok motor) {ambient maxSafe : ℝ}
    {timeConstant : Int} {sensor : TemperatureSensor ℝ}
    (hsensor : TemperatureSensor.create ambient timeConstant maxSafe = .ok sensor) :
    (∀ calls : List VirtualMotor.Call,
      (∀ steps : List Int, (∀ dt ∈ steps, 0 < dt) →
        steps.foldl (VirtualMotor.update Real.exp) (Machine.run VirtualMotor.step motor calls) =
          (Machine.run VirtualMotor.step motor calls).update Real.exp steps.sum) ∧
        |(Machine.run VirtualMotor.step motor calls).torque| ≤ maxTorque ∧
        ∀ dt > 0, Lag.Approaches (Machine.run VirtualMotor.step motor calls).commandedTorque
          (Machine.run VirtualMotor.step motor calls).torque
          ((Machine.run VirtualMotor.step motor calls).update Real.exp dt).torque) ∧
      ∀ updates : List TemperatureSensor.Update,
        (∀ (target : ℝ) (steps : List Int), (∀ dt ∈ steps, 0 < dt) →
          steps.foldl (fun sensor dt => sensor.update Real.exp dt target)
              (Machine.run TemperatureSensor.step sensor updates) =
            (Machine.run TemperatureSensor.step sensor updates).update Real.exp steps.sum target) ∧
          (Machine.run TemperatureSensor.step sensor updates).celsius ∈
            convexHull ℝ (insert ambient {target | ∃ update ∈ updates, update.targetCelsius = target}) ∧
          ∀ dt > 0, ∀ target, Lag.Approaches target (Machine.run TemperatureSensor.step sensor updates).celsius
            ((Machine.run TemperatureSensor.step sensor updates).update Real.exp dt target).celsius := by
  refine ⟨fun calls => ?_, fun updates => ?_⟩
  · have hbounded : VirtualMotor.Bounded maxTorque (Machine.run VirtualMotor.step motor calls) :=
      Machine.run_invariant (fun motor call h => h.step call) (VirtualMotor.bounded_of_create hmotor) calls
    refine ⟨fun steps hsteps => ?_, abs_le.2 hbounded.torque, fun dt hdt => hbounded.approaches hdt⟩
    exact Lag.foldl_eq_sum (fun motor => VirtualMotor.update_of_nonpos motor (le_refl 0))
      (fun motor s t hs ht => VirtualMotor.update_update motor hs ht) steps hsteps _
  · obtain ⟨hcelsius, hconstant⟩ := TemperatureSensor.timeConstantS_pos hsensor
    refine ⟨fun target steps hsteps => ?_, ?_, fun dt hdt target => ?_⟩
    · exact Lag.foldl_eq_sum (fun sensor => TemperatureSensor.update_of_nonpos sensor (le_refl 0) target)
        (fun sensor s t hs ht => TemperatureSensor.update_update sensor hs ht target) steps hsteps _
    · have hgiven := subset_convexHull ℝ
        (insert ambient {target | ∃ update ∈ updates, update.targetCelsius = target})
      apply TemperatureSensor.celsius_run_mem (convex_convexHull ℝ _) hconstant
      · exact hgiven (Or.inl hcelsius)
      · exact fun update hmem => hgiven (Or.inr ⟨update, hmem, rfl⟩)
    · exact TemperatureSensor.approaches_update (TemperatureSensor.timeConstantS_run hconstant updates) hdt target

/-- A motor with a second's time constant under command, and a sensor that has seen a heat target. -/
theorem first_order_lag_second :
    |(Machine.run VirtualMotor.step (⟨2, Joint.seconds 1000000000, ofInt 0, ofInt 0⟩ : VirtualMotor ℝ)
        [.setCommandedTorque 1, .update 5, .update 7]).torque| ≤ 2 ∧
      (Machine.run TemperatureSensor.step (⟨25, Joint.seconds 1000000000, 80⟩ : TemperatureSensor ℝ)
        [⟨5, 60⟩]).celsius ∈ convexHull ℝ (insert (25 : ℝ)
          {target | ∃ update ∈ [TemperatureSensor.Update.mk 5 60], update.targetCelsius = target}) := by
  have hsecond : ¬(Joint.seconds 1000000000 : ℝ) ≤ ofInt 0 := mt seconds_nonpos_iff.1 (by decide)
  have hmax : ¬(2 : ℝ) ≤ ofInt 0 := by
    rw [ofInt_zero]
    norm_num
  have hmotor : VirtualMotor.create (2 : ℝ) 1000000000 = .ok ⟨2, Joint.seconds 1000000000, ofInt 0, ofInt 0⟩ := by
    rw [VirtualMotor.create, if_neg hmax, if_neg hsecond]
  have hsensor : TemperatureSensor.create (25 : ℝ) 1000000000 80 = .ok ⟨25, Joint.seconds 1000000000, 80⟩ :=
    if_neg hsecond
  have hlag := first_order_lag hmotor hsensor
  exact ⟨(hlag.1 [.setCommandedTorque 1, .update 5, .update 7]).2.1, (hlag.2 [⟨5, 60⟩]).2.1⟩

end RobotEmu
