import Mathlib.Data.Stream.Init
import RobotEmu.HardwareEncoder
import RobotEmu.Machine

/-! `encoder_sensor.cpp`: an encoder behind an offset, a noise source and failure modes. The noise source
is the stream of the values it is still to give, one for a draw. A failed read returns before it touches
any of the state, which is why what the healthy reads return does not depend on how many failed reads lie
between them. -/

namespace RobotEmu

open Arith

inductive EncoderFailureMode where
  | none
  | stuck
  | disconnected
  deriving DecidableEq, Repr

/-- A significand at some exponent, rounded half away from zero. -/
def roundMagnitude (mantissa : Nat) (exponent : Int) : Nat :=
  if 0 ≤ exponent then mantissa * 2 ^ exponent.toNat
  else (2 * mantissa + 2 ^ (-exponent).toNat) / (2 * 2 ^ (-exponent).toNat)

/-- `std::numbers::pi` and `std::llround` of doubles. -/
def EncoderStd.double (unspecified : Binary64 → Int64) : EncoderStd Binary64 where
  pi := Numbers.pi
  llround x :=
    match x.unpack with
    | .zero _ => 0
    | .finite sign mantissa exponent _ =>
        let rounded := sign.apply (roundMagnitude mantissa exponent)
        if -2 ^ 63 ≤ rounded ∧ rounded < 2 ^ 63 then Int64.ofInt rounded else unspecified x
    | .infinity _ => unspecified x
    | .notANumber => unspecified x

structure EncoderSensor where
  encoder : VirtualEncoder
  noiseStdDevRadians : Binary64
  offsetRadians : Binary64
  /-- What `noiseDist_(rng_)` gives from here on. -/
  noiseDist : Stream' Binary64
  failureMode : EncoderFailureMode
  lastReading : Binary64

namespace EncoderSensor

/-- `std::numeric_limits<double>::quiet_NaN()`. -/
def quietNaN : Binary64 := ⟨0x7FF8000000000000#64⟩

theorem isNaN_quietNaN : quietNaN.IsNaN := by decide

/-- The generator and the distribution give a stream for each deviation and seed. -/
def create (source : Binary64 → BitVec 64 → Stream' Binary64) (encoder : VirtualEncoder)
    (noiseStdDevRadians offsetRadians : Binary64) (seed : BitVec 64) : Except HardwareError EncoderSensor :=
  if noiseStdDevRadians < ofInt 0 then .error .invalidConfiguration
  else .ok ⟨encoder, noiseStdDevRadians, offsetRadians, source noiseStdDevRadians seed, .none, ofInt 0⟩

def setFailureMode (sensor : EncoderSensor) (mode : EncoderFailureMode) : EncoderSensor :=
  { sensor with failureMode := mode }

variable (std : EncoderStd Binary64)

/-- The noise added to a healthy reading, and the stream after it. Nothing is drawn without noise. -/
def noise (sensor : EncoderSensor) : Binary64 × Stream' Binary64 :=
  if sensor.noiseStdDevRadians > ofInt 0 then (sensor.noiseDist.head, sensor.noiseDist.tail)
  else (ofInt 0, sensor.noiseDist)

def read (sensor : EncoderSensor) (truePositionRadians : Binary64) : Binary64 × EncoderSensor :=
  match sensor.failureMode with
  | .disconnected => (quietNaN, sensor)
  | .stuck => (sensor.lastReading, sensor)
  | .none =>
      let quantized := sensor.encoder.sample std (truePositionRadians + sensor.offsetRadians)
      let reading := quantized + sensor.noise.1
      (reading, { sensor with noiseDist := sensor.noise.2, lastReading := reading })

inductive Call where
  | read (truePositionRadians : Binary64)
  | setFailureMode (mode : EncoderFailureMode)

/-- A value that a read returned, with the mode it was made in. -/
structure Reading where
  mode : EncoderFailureMode
  value : Binary64

/-- What the reads of a sequence of calls return. -/
def readings : EncoderSensor → List Call → List Reading
  | _, [] => []
  | sensor, .read position :: calls =>
      ⟨sensor.failureMode, (sensor.read std position).1⟩ :: readings (sensor.read std position).2 calls
  | sensor, .setFailureMode mode :: calls => readings (sensor.setFailureMode mode) calls

/-- The calls without the reads that are made in another mode than `none`. -/
def withoutFailedReads : EncoderFailureMode → List Call → List Call
  | _, [] => []
  | mode, .read position :: calls =>
      if mode = .none then .read position :: withoutFailedReads mode calls else withoutFailedReads mode calls
  | _, .setFailureMode mode :: calls => .setFailureMode mode :: withoutFailedReads mode calls

/-- The value of a healthy reading. -/
def Reading.healthy (reading : Reading) : Option Binary64 :=
  if reading.mode = .none then some reading.value else none

theorem read_stuck {sensor : EncoderSensor} (h : sensor.failureMode = .stuck) (position : Binary64) :
    sensor.read std position = (sensor.lastReading, sensor) := by
  rw [read]
  split <;> simp_all

theorem read_disconnected {sensor : EncoderSensor} (h : sensor.failureMode = .disconnected)
    (position : Binary64) : sensor.read std position = (quietNaN, sensor) := by
  rw [read]
  split <;> simp_all

/-- A failed read leaves the sensor as it is. -/
theorem read_of_failed {sensor : EncoderSensor} (h : sensor.failureMode ≠ .none) (position : Binary64) :
    (sensor.read std position).2 = sensor := by
  cases hmode : sensor.failureMode with
  | none => exact absurd hmode h
  | stuck => rw [read_stuck std hmode]
  | disconnected => rw [read_disconnected std hmode]

/-- A healthy read keeps the mode and remembers its value. -/
theorem read_of_healthy {sensor : EncoderSensor} (h : sensor.failureMode = .none) (position : Binary64) :
    (sensor.read std position).2.failureMode = .none ∧
      (sensor.read std position).2.lastReading = (sensor.read std position).1 := by
  rw [read]
  split <;> simp_all

theorem readings_withoutFailedReads (sensor : EncoderSensor) (calls : List Call) :
    readings std sensor (withoutFailedReads sensor.failureMode calls) =
      (readings std sensor calls).filter fun reading => reading.mode = .none := by
  induction calls generalizing sensor with
  | nil => rfl
  | cons call calls ih =>
      cases call with
      | setFailureMode mode => exact ih (sensor.setFailureMode mode)
      | read position =>
          rw [withoutFailedReads, readings]
          by_cases hmode : sensor.failureMode = .none
          · obtain ⟨hmode', -⟩ := read_of_healthy std hmode position
            have hrest := ih (sensor.read std position).2
            rw [hmode'] at hrest
            rw [if_pos hmode, readings, List.filter_cons_of_pos (by simpa using hmode), ← hrest, hmode]
          · rw [if_neg hmode, read_of_failed std hmode, List.filter_cons_of_neg (by simpa using hmode), ih]

/-- A stuck read returns the last healthy value before it, or what the sensor remembered at first. -/
theorem stuck_reading {sensor : EncoderSensor} {calls : List Call} {before later : List Reading}
    {reading : Reading} (h : readings std sensor calls = before ++ reading :: later)
    (hstuck : reading.mode = .stuck) :
    reading.value = (Machine.latest Reading.healthy before).getD sensor.lastReading := by
  induction calls generalizing sensor before with
  | nil => cases before <;> cases h
  | cons call calls ih =>
      cases call with
      | setFailureMode mode =>
          rw [readings] at h
          have hvalue := ih h
          exact hvalue
      | read position =>
          rw [readings] at h
          cases before with
          | nil =>
              obtain ⟨hreading, -⟩ := List.cons.inj h
              subst hreading
              rw [read_stuck std hstuck]
              rfl
          | cons first before =>
              obtain ⟨hfirst, hrest⟩ := List.cons.inj h
              subst hfirst
              rw [ih hrest, Machine.latest_cons, Reading.healthy]
              by_cases hmode : sensor.failureMode = .none
              · rw [if_pos hmode, (read_of_healthy std hmode position).2]
                cases Machine.latest Reading.healthy before <;> rfl
              · rw [if_neg hmode, read_of_failed std hmode, Option.or_none]

theorem isNaN_of_disconnected {sensor : EncoderSensor} {calls : List Call} {reading : Reading}
    (h : reading ∈ readings std sensor calls) (hmode : reading.mode = .disconnected) :
    reading.value.IsNaN := by
  induction calls generalizing sensor with
  | nil => cases h
  | cons call calls ih =>
      cases call with
      | setFailureMode mode => exact ih h
      | read position =>
          rcases List.mem_cons.1 h with rfl | h
          · rw [read_disconnected std hmode]
            exact isNaN_quietNaN
          · exact ih h

/-- What the failure modes do to any sequence of calls of a new sensor. -/
theorem failure_modes {source : Binary64 → BitVec 64 → Stream' Binary64} {encoder : VirtualEncoder}
    {noiseStdDevRadians offsetRadians : Binary64} {seed : BitVec 64} {sensor : EncoderSensor}
    (h : create source encoder noiseStdDevRadians offsetRadians seed = .ok sensor) (calls : List Call) :
    readings std sensor (withoutFailedReads .none calls) =
        (readings std sensor calls).filter (fun reading => reading.mode = .none) ∧
      (∀ before reading later, readings std sensor calls = before ++ reading :: later →
        reading.mode = .stuck →
          reading.value = (Machine.latest Reading.healthy before).getD (ofInt 0)) ∧
      ∀ reading ∈ readings std sensor calls, reading.mode = .disconnected → reading.value.IsNaN := by
  have hnew : sensor.failureMode = .none ∧ sensor.lastReading = ofInt 0 := by
    rw [create] at h
    split_ifs at h
    obtain rfl := Except.ok.inj h
    exact ⟨rfl, rfl⟩
  refine ⟨?_, ?_, fun reading => isNaN_of_disconnected std⟩
  · have htwo := readings_withoutFailedReads std sensor calls
    rwa [hnew.1] at htwo
  · intro before reading later hreadings hstuck
    rw [← hnew.2]
    exact stuck_reading std hreadings hstuck

/-- A read after the encoder was stuck and disconnected, from a sensor with noise. -/
theorem failure_modes_recovered :
    readings (.double fun _ => 0) ⟨⟨4096, by decide⟩, ofInt 1, ofInt 0, Stream'.const (ofInt 1), .none, ofInt 0⟩
        [.read (ofInt 1), .setFailureMode .stuck, .setFailureMode .disconnected, .setFailureMode .none,
          .read (ofInt 2)] =
      (readings (.double fun _ => 0) ⟨⟨4096, by decide⟩, ofInt 1, ofInt 0, Stream'.const (ofInt 1), .none, ofInt 0⟩
        [.read (ofInt 1), .setFailureMode .stuck, .read (ofInt 5), .setFailureMode .disconnected,
          .read (ofInt 5), .setFailureMode .none, .read (ofInt 2)]).filter fun reading => reading.mode = .none := by
  have hcreate : create (fun _ _ => Stream'.const (ofInt 1)) ⟨4096, by decide⟩ (ofInt 1) (ofInt 0) 42 =
      .ok ⟨⟨4096, by decide⟩, ofInt 1, ofInt 0, Stream'.const (ofInt 1), .none, ofInt 0⟩ := if_neg (by decide)
  exact (failure_modes (.double fun _ => 0) hcreate [.read (ofInt 1), .setFailureMode .stuck, .read (ofInt 5),
    .setFailureMode .disconnected, .read (ofInt 5), .setFailureMode .none, .read (ofInt 2)]).1

end EncoderSensor
end RobotEmu
