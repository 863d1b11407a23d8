import RobotEmu.HardwareMotor
import RobotEmu.Machine

/-! Setpoints over doubles. A channel of an `AnalogIO` and the torques of a `VirtualMotor` are guarded by
comparisons that a NaN passes. Without a NaN a channel stays in its range; the actual torque does as long as
rounding cannot carry it out. -/

namespace RobotEmu

open Arith Machine
open Binary64 hiding ofInt

/-! ### Channels -/

namespace AnalogIO

/-- A call of `write`. -/
structure Write where
  channel : Nat
  value : Binary64

def next (io : AnalogIO Binary64) (call : Write) : AnalogIO Binary64 := (io.write call.channel call.value).2

/-- Every channel holds a number from `minValue` to `maxValue`. -/
def InRange (io : AnalogIO Binary64) : Prop := ∀ value ∈ io.channels, io.minValue ≤ value ∧ value ≤ io.maxValue

instance : DecidablePred InRange := fun _ => inferInstanceAs (Decidable (∀ value ∈ _, _ ∧ _))

theorem create_eq_ok {channelCount : Nat} {minValue maxValue : Binary64} {io : AnalogIO Binary64}
    (h : create channelCount minValue maxValue = .ok io) :
    ¬maxValue ≤ minValue ∧ io = ⟨minValue, maxValue, List.replicate channelCount minValue⟩ := by
  rw [create] at h
  split_ifs at h with hle
  exact ⟨hle, (Except.ok.inj h).symm⟩

/-- A write leaves everything as it was, or puts a value that no guard has refused into a channel. -/
theorem write_cases (io : AnalogIO Binary64) (channel : Nat) (value : Binary64) :
    (io.write channel value = (.error .outOfRange, io) ∧
      (channel < io.channels.length → value < io.minValue ∨ io.maxValue < value)) ∨
    (io.write channel value = (.ok (), { io with channels := io.channels.set channel value }) ∧
      channel < io.channels.length ∧ ¬value < io.minValue ∧ ¬io.maxValue < value) := by
  rw [write]
  split_ifs with hchannel hrange
  · exact .inl ⟨rfl, fun hlt => absurd hlt (not_lt.2 hchannel)⟩
  · exact .inl ⟨rfl, fun _ => hrange⟩
  · exact .inr ⟨rfl, not_le.1 hchannel, not_or.1 hrange⟩

theorem write_error {io : AnalogIO Binary64} {channel : Nat} {value : Binary64} {e : HardwareError}
    (h : (io.write channel value).1 = .error e) : (io.write channel value).2 = io := by
  rcases io.write_cases channel value with ⟨heq, -⟩ | ⟨heq, -⟩
  · rw [heq]
  · rw [heq] at h
    cases h

/-- The bounds are numbers, and there are as many channels as at first. -/
structure Sound (channelCount : Nat) (io : AnalogIO Binary64) : Prop where
  min_number : ¬io.minValue.IsNaN
  max_number : ¬io.maxValue.IsNaN
  length_eq : io.channels.length = channelCount

/-- From a state in range only a NaN for a channel that exists leads out of it. -/
theorem inRange_next_iff {channelCount : Nat} {io : AnalogIO Binary64} (h : Sound channelCount io) (hio : InRange io)
    (call : Write) : Sound channelCount (io.next call) ∧
      (InRange (io.next call) ↔ (call.channel < channelCount → ¬call.value.IsNaN)) := by
  rw [next]
  rcases io.write_cases call.channel call.value with ⟨heq, hrefused⟩ | ⟨heq, hlt, hmin, hmax⟩
  · rw [heq]
    refine ⟨h, iff_of_true hio fun hchannel hnan => ?_⟩
    rw [← h.length_eq] at hchannel
    rcases hrefused hchannel with hlt | hlt
    · exact (not_isNaN_of_le (le_of_lt hlt)).1 hnan
    · exact (not_isNaN_of_le (le_of_lt hlt)).2 hnan
  · rw [heq]
    refine ⟨⟨h.min_number, h.max_number, (List.length_set ..).trans h.length_eq⟩, ?_⟩
    constructor
    · intro hrange _
      exact (not_isNaN_of_le (hrange call.value (List.mem_set hlt call.value)).1).2
    · intro hnumber value hvalue
      have hcall := hnumber (h.length_eq ▸ hlt)
      rcases List.mem_or_eq_of_mem_set hvalue with hmem | rfl
      · exact hio value hmem
      · exact ⟨le_of_not_lt hcall h.min_number hmin, le_of_not_lt h.max_number hcall hmax⟩

theorem inRange_throughout_iff {channelCount : Nat} {minValue maxValue : Binary64} {io : AnalogIO Binary64}
    (h : create channelCount minValue maxValue = .ok io) (calls : List Write) :
    Throughout next InRange io calls ↔ channelCount = 0 ∨ ¬minValue.IsNaN ∧ ¬maxValue.IsNaN ∧
      ∀ call ∈ calls, call.channel < channelCount → ¬call.value.IsNaN := by
  obtain ⟨hlt, rfl⟩ := create_eq_ok h
  rcases Nat.eq_zero_or_pos channelCount with rfl | hpos
  · refine iff_of_true ?_ (.inl rfl)
    have hempty : ∀ (io : AnalogIO Binary64) (call : Write), io.channels = [] → (io.next call).channels = [] := by
      intro io call hio
      rw [next]
      rcases io.write_cases call.channel call.value with ⟨heq, -⟩ | ⟨heq, -⟩
      · rw [heq]
        exact hio
      · rw [heq]
        exact (List.set_eq_nil_iff _ _).2 hio
    apply (throughout_of_invariant hempty rfl).mono
    intro io hio value hvalue
    rw [hio] at hvalue
    cases hvalue
  · rw [or_iff_right hpos.ne']
    by_cases hbounds : ¬minValue.IsNaN ∧ ¬maxValue.IsNaN
    · have hstart : InRange ⟨minValue, maxValue, List.replicate channelCount minValue⟩ := by
        intro value hvalue
        obtain rfl := List.eq_of_mem_replicate hvalue
        exact ⟨le_self hbounds.1, le_of_lt (lt_of_not_le hbounds.2 hbounds.1 hlt)⟩
      have hsound : Sound channelCount ⟨minValue, maxValue, List.replicate channelCount minValue⟩ :=
        ⟨hbounds.1, hbounds.2, List.length_replicate⟩
      have hstep : ∀ io call, Sound channelCount io → InRange io → Sound channelCount (next io call) ∧
          (InRange (next io call) ↔ (call.channel < channelCount → ¬call.value.IsNaN)) :=
        fun io call hs hio => inRange_next_iff hs hio call
      rw [throughout_iff_along (q := fun _ (call : Write) => call.channel < channelCount → ¬call.value.IsNaN)
        hstep hsound hstart, along_iff_forall, and_iff_right hbounds.1, and_iff_right hbounds.2]
    · refine iff_of_false (fun hrun => hbounds ?_) fun hall => hbounds ⟨hall.1, hall.2.1⟩
      exact not_isNaN_of_le (hrun.head minValue (List.mem_replicate.2 ⟨hpos.ne', rfl⟩)).2

end AnalogIO

/-! ### Torques -/

/-- The time of a 64-bit count of nanoseconds is finite. -/
theorem isFinite_seconds (dt : BitVec 64) : (Joint.seconds dt.toInt : Binary64).IsFinite := by
  have hlo : -2 ^ 63 ≤ dt.toInt := BitVec.le_toInt dt
  have hhi : dt.toInt ≤ 2 ^ 63 := (BitVec.toInt_lt (x := dt)).le
  exact (div_mem_uIcc (isFinite_ofInt hlo hhi) (by decide) (by decide)).1

namespace VirtualMotor

inductive Command where
  | setCommandedTorque (torque : Binary64)
  | update (dt : BitVec 64)

variable (exp : Binary64 → Binary64)

def next (motor : VirtualMotor Binary64) : Command → VirtualMotor Binary64
  | .setCommandedTorque torque => (motor.setCommandedTorque torque).2
  | .update dt => motor.update exp dt.toInt

/-- A torque that the motor is made for. -/
def Allows (motor : VirtualMotor Binary64) (torque : Binary64) : Prop :=
  -motor.maxTorque ≤ torque ∧ torque ≤ motor.maxTorque

instance (motor : VirtualMotor Binary64) (torque : Binary64) : Decidable (motor.Allows torque) :=
  inferInstanceAs (Decidable (_ ∧ _))

/-- The commanded and the actual torque are numbers from `-maxTorque` to `maxTorque`. -/
def InRange (motor : VirtualMotor Binary64) : Prop := motor.Allows motor.commandedTorque ∧ motor.Allows motor.torque

instance : DecidablePred InRange := fun _ => inferInstanceAs (Decidable (_ ∧ _))

/-- The setpoint is a number. Over a time, the distance to the setpoint is finite, and adding it back does not
lead out of the range. -/
def Steady (motor : VirtualMotor Binary64) : Command → Prop
  | .setCommandedTorque torque => ¬torque.IsNaN
  | .update dt => (ofInt 0 : Binary64) < Joint.seconds dt.toInt →
      (motor.torque - motor.commandedTorque).IsFinite ∧
        motor.Allows (motor.commandedTorque + (motor.torque - motor.commandedTorque))

instance (motor : VirtualMotor Binary64) : ∀ call, Decidable (Steady motor call)
  | .setCommandedTorque _ => inferInstanceAs (Decidable (¬_))
  | .update _ => inferInstanceAs (Decidable (_ → _))

theorem create_eq_ok {maxTorque : Binary64} {timeConstant : Int} {motor : VirtualMotor Binary64}
    (h : create maxTorque timeConstant = .ok motor) : ¬maxTorque ≤ ofInt 0 ∧
      ¬(Joint.seconds timeConstant : Binary64) ≤ ofInt 0 ∧
      motor = ⟨maxTorque, Joint.seconds timeConstant, ofInt 0, ofInt 0⟩ := by
  rw [create] at h
  split_ifs at h with hmax htime
  exact ⟨hmax, htime, (Except.ok.inj h).symm⟩

/-- A setpoint leaves everything as it was, or is one that no guard has refused. -/
theorem setCommandedTorque_cases (motor : VirtualMotor Binary64) (torque : Binary64) :
    (motor.setCommandedTorque torque = (.error .outOfRange, motor) ∧
      (torque < -motor.maxTorque ∨ motor.maxTorque < torque)) ∨
    (motor.setCommandedTorque torque = (.ok (), { motor with commandedTorque := torque }) ∧
      ¬torque < -motor.maxTorque ∧ ¬motor.maxTorque < torque) := by
  rw [setCommandedTorque]
  split_ifs with hrange
  · exact .inl ⟨rfl, hrange⟩
  · exact .inr ⟨rfl, not_or.1 hrange⟩

theorem setCommandedTorque_error {motor : VirtualMotor Binary64} {torque : Binary64} {e : HardwareError}
    (h : (motor.setCommandedTorque torque).1 = .error e) : (motor.setCommandedTorque torque).2 = motor := by
  rcases motor.setCommandedTorque_cases torque with ⟨heq, -⟩ | ⟨heq, -⟩
  · rw [heq]
  · rw [heq] at h
    cases h

/-- A NaN is never refused. -/
theorem setCommandedTorque_nan (motor : VirtualMotor Binary64) {torque : Binary64} (h : torque.IsNaN) :
    (motor.setCommandedTorque torque).2.commandedTorque = torque := by
  rcases motor.setCommandedTorque_cases torque with ⟨-, hlt | hlt⟩ | ⟨heq, -⟩
  · exact absurd h (not_isNaN_of_le (le_of_lt hlt)).1
  · exact absurd h (not_isNaN_of_le (le_of_lt hlt)).2
  · rw [heq]

/-- The torque the motor is made for is a number above zero, and its time constant a finite one. -/
structure Sound (motor : VirtualMotor Binary64) : Prop where
  max_pos : ofInt 0 < motor.maxTorque
  timeConstant : motor.timeConstantS.IsPositiveFinite

theorem Sound.of_create {maxTorque : Binary64} {timeConstant : BitVec 64} {motor : VirtualMotor Binary64}
    (h : create maxTorque timeConstant.toInt = .ok motor) (hnumber : ¬maxTorque.IsNaN) :
    Sound motor ∧ InRange motor := by
  obtain ⟨hmax, htime, rfl⟩ := create_eq_ok h
  have hfinite := isFinite_seconds timeConstant
  have hpos : ofInt 0 < maxTorque := lt_of_not_le hnumber (not_isNaN_ofInt 0) hmax
  obtain ⟨hneg, hle, -⟩ := neg_le_zero_le hpos
  exact ⟨⟨hpos, hfinite, lt_of_not_le hfinite.not_isNaN (not_isNaN_ofInt 0) htime⟩, ⟨hneg, hle⟩, hneg, hle⟩

variable {exp}

/-- What is kept of the distance to the setpoint over a time is between zero and one. -/
theorem alpha_mem (hexp : ∀ x, x ≤ ofInt 0 → ofInt 0 ≤ exp x ∧ exp x ≤ ofInt 1) {motor : VirtualMotor Binary64}
    (h : Sound motor) {dt : BitVec 64} (hdt : (ofInt 0 : Binary64) < Joint.seconds dt.toInt) :
    ofInt 0 ≤ exp (-Joint.seconds dt.toInt / motor.timeConstantS) ∧
      exp (-Joint.seconds dt.toInt / motor.timeConstantS) ≤ ofInt 1 :=
  hexp _ (div_le_zero (isFinite_neg (isFinite_seconds dt)) h.timeConstant.1 (neg_le_zero_le hdt).1
    h.timeConstant.2)

theorem inRange_next (hexp : ∀ x, x ≤ ofInt 0 → ofInt 0 ≤ exp x ∧ exp x ≤ ofInt 1) {motor : VirtualMotor Binary64}
    (h : Sound motor) (hmotor : InRange motor) (call : Command) (hcall : Steady motor call) :
    Sound (motor.next exp call) ∧ InRange (motor.next exp call) := by
  cases call with
  | setCommandedTorque torque =>
      rw [next]
      rcases motor.setCommandedTorque_cases torque with ⟨heq, -⟩ | ⟨heq, hmin, hmax⟩
      · rw [heq]
        exact ⟨h, hmotor⟩
      · rw [heq]
        obtain ⟨hnmin, -⟩ := not_isNaN_of_le hmotor.2.1
        obtain ⟨-, hnmax⟩ := not_isNaN_of_le hmotor.2.2
        exact ⟨⟨h.max_pos, h.timeConstant⟩, ⟨le_of_not_lt hcall hnmin hmin, le_of_not_lt hnmax hcall hmax⟩, hmotor.2⟩
  | update dt =>
      rw [next, update]
      split_ifs with htime
      · exact ⟨h, hmotor⟩
      · have hdt := lt_of_not_le (isFinite_seconds dt).not_isNaN (not_isNaN_ofInt 0) htime
        obtain ⟨ha0, ha1⟩ := alpha_mem hexp h hdt
        obtain ⟨hdistance, hback⟩ := hcall hdt
        obtain ⟨-, hcommanded⟩ := isFinite_of_sub hdistance
        have htorque := add_mul_mem hcommanded hdistance ha0 ha1 hmotor.1.1 hmotor.1.2 hback.1 hback.2
        exact ⟨⟨h.max_pos, h.timeConstant⟩, hmotor.1, htorque⟩

/-- A run over numbers alone, in which rounding does not lead out of the range, stays in it. -/
theorem inRange_throughout (hexp : ∀ x, x ≤ ofInt 0 → ofInt 0 ≤ exp x ∧ exp x ≤ ofInt 1)
    {maxTorque : Binary64} {timeConstant : BitVec 64} {motor : VirtualMotor Binary64}
    (h : create maxTorque timeConstant.toInt = .ok motor) (hnumber : ¬maxTorque.IsNaN) {calls : List Command}
    (hcalls : Along (next exp) Steady motor calls) : Throughout (next exp) InRange motor calls := by
  have hrun : Throughout (next exp) (fun motor => Sound motor ∧ InRange motor) motor calls :=
    Along.throughout (fun motor call hmotor hcall => inRange_next hexp hmotor.1 hmotor.2 call hcall)
      (Sound.of_create h hnumber) hcalls
  exact hrun.mono fun _ => And.right

/-- No run that stays in range has a NaN for a bound or a setpoint. -/
theorem numbers_of_inRange {maxTorque : Binary64} {timeConstant : BitVec 64} {motor : VirtualMotor Binary64}
    (h : create maxTorque timeConstant.toInt = .ok motor) {calls : List Command}
    (hrun : Throughout (next exp) InRange motor calls) :
    ¬maxTorque.IsNaN ∧ ∀ torque, .setCommandedTorque torque ∈ calls → ¬torque.IsNaN := by
  obtain ⟨-, -, rfl⟩ := create_eq_ok h
  refine ⟨(not_isNaN_of_le hrun.head.1.2).2, fun torque hmem => ?_⟩
  have hstep : ∀ motor call, InRange (next exp motor call) →
      ∀ torque, call = .setCommandedTorque torque → ¬torque.IsNaN := by
    rintro motor call hrange torque rfl hnan
    rw [next, InRange, motor.setCommandedTorque_nan hnan] at hrange
    exact (not_isNaN_of_le hrange.1.1).2 hnan
  exact along_iff_forall.1 (hrun.along hstep) _ hmem torque rfl

end VirtualMotor

/-- **Setpoints in range.** Over every run, all channels hold numbers in their range exactly if there is none, or
both bounds are numbers and no NaN is written to one that exists. Both torques of a motor do over every run
without NaNs in which no update starts so far from the setpoint, or so close to a bound, that rounding leads out
of the range; a NaN always does. A call that is refused changes nothing. -/
theorem setpoints_in_range (exp : Binary64 → Binary64)
    (hexp : ∀ x, x ≤ ofInt 0 → ofInt 0 ≤ exp x ∧ exp x ≤ ofInt 1) :
    (∀ channelCount minValue maxValue io, AnalogIO.create channelCount minValue maxValue = .ok io → ∀ calls,
      (Throughout AnalogIO.next AnalogIO.InRange io calls ↔ channelCount = 0 ∨ ¬minValue.IsNaN ∧ ¬maxValue.IsNaN ∧
        ∀ call ∈ calls, call.channel < channelCount → ¬call.value.IsNaN)) ∧
    (∀ maxTorque, ∀ timeConstant : BitVec 64, ∀ motor,
      VirtualMotor.create maxTorque timeConstant.toInt = .ok motor → ∀ calls,
        (Throughout (VirtualMotor.next exp) VirtualMotor.InRange motor calls →
          ¬maxTorque.IsNaN ∧ ∀ torque, .setCommandedTorque torque ∈ calls → ¬torque.IsNaN) ∧
        (¬maxTorque.IsNaN → Along (VirtualMotor.next exp) VirtualMotor.Steady motor calls →
          Throughout (VirtualMotor.next exp) VirtualMotor.InRange motor calls)) ∧
    (∀ (io : AnalogIO Binary64) channel value e,
      (io.write channel value).1 = .error e → (io.write channel value).2 = io) ∧
    ∀ (motor : VirtualMotor Binary64) torque e,
      (motor.setCommandedTorque torque).1 = .error e → (motor.setCommandedTorque torque).2 = motor := by
  refine ⟨?_, ?_, ?_, ?_⟩
  · intro channelCount minValue maxValue io h calls
    exact AnalogIO.inRange_throughout_iff h calls
  · intro maxTorque timeConstant motor h calls
    refine ⟨VirtualMotor.numbers_of_inRange h, fun hnumber hcalls => ?_⟩
    exact VirtualMotor.inRange_throughout hexp h hnumber hcalls
  · intro io channel value e h
    exact AnalogIO.write_error h
  · intro motor torque e h
    exact VirtualMotor.setCommandedTorque_error h

/-- `std::exp` at the arguments of the runs below: it underflows, it is about `exp (-256)`, or it rounds to one. -/
def expSample (x : Binary64) : Binary64 :=
  if x ≤ ofInt (-746) then ofInt 0 else if x ≤ ofInt (-256) then ⟨0x28D9755956AD4E9C#64⟩ else ofInt 1

theorem expSample_mem (x : Binary64) (_ : x ≤ ofInt 0) : ofInt 0 ≤ expSample x ∧ expSample x ≤ ofInt 1 := by
  rw [expSample]
  split_ifs <;> decide

theorem setpoints_in_range_sample :
    (∃ io, AnalogIO.create 1 (ofInt (-10)) (ofInt 10) = .ok io ∧
      Throughout AnalogIO.next AnalogIO.InRange io [⟨0, ofInt 5⟩, ⟨0, ofInt 11⟩, ⟨1, ofInt 0 / ofInt 0⟩]) ∧
    ∃ motor, VirtualMotor.create (ofInt 2) 1 = .ok motor ∧
      Throughout (VirtualMotor.next expSample) VirtualMotor.InRange motor
        [.setCommandedTorque (ofInt 1), .update 1000, .setCommandedTorque (ofInt 3), .update 1000] := by
  obtain ⟨hio, hmotor, -⟩ := setpoints_in_range expSample expSample_mem
  refine ⟨⟨_, rfl, (hio 1 (ofInt (-10)) (ofInt 10) _ rfl _).2 (.inr ?_)⟩, _, rfl, ?_⟩
  · decide +kernel
  · exact (hmotor (ofInt 2) 1 _ rfl _).2 (by decide) (by decide +kernel)

/-- A NaN is let through to a channel and to a motor; and without one, rounding leads out of the range. -/
theorem not_setpoints_in_range :
    (∃ io, AnalogIO.create 1 (ofInt (-10)) (ofInt 10) = .ok io ∧
      ¬Throughout AnalogIO.next AnalogIO.InRange io [⟨0, ofInt 0 / ofInt 0⟩]) ∧
    (∃ motor, VirtualMotor.create (ofInt 1) 1000 = .ok motor ∧
      ¬Throughout (VirtualMotor.next expSample) VirtualMotor.InRange motor
        [.setCommandedTorque (ofInt 0 / ofInt 0), .update 1]) ∧
    ∃ motor, VirtualMotor.create ⟨0x3FF0000000000003#64⟩ (2 ^ 55) = .ok motor ∧
      ¬Throughout (VirtualMotor.next expSample) VirtualMotor.InRange motor
        [.setCommandedTorque ⟨0x3FF0000000000003#64⟩, .update (2 ^ 63 - 1), .setCommandedTorque (ofInt (-1)),
          .update 1] :=
  ⟨⟨_, rfl, by decide +kernel⟩, ⟨_, rfl, by decide +kernel⟩, _, rfl, by decide +kernel⟩

end RobotEmu
