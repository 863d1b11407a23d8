import RobotEmu.CoreJoint

/-! `analog_io.cpp` and `virtual_motor.cpp`: channels that hold a value, and a motor whose torque follows a
commanded one. A call that can fail returns its answer next to what it leaves behind. -/

namespace RobotEmu

open Arith

inductive HardwareError where
  | invalidConfiguration
  | outOfRange
  deriving DecidableEq, Repr

variable {F : Type*}

structure AnalogIO (F : Type*) where
  minValue : F
  maxValue : F
  channels : List F

structure VirtualMotor (F : Type*) where
  maxTorque : F
  timeConstantS : F
  commandedTorque : F
  torque : F

variable [Arith F]

namespace AnalogIO

def create (channelCount : Nat) (minValue maxValue : F) : Except HardwareError <| AnalogIO F :=
  if minValue ≥ maxValue then .error .invalidConfiguration
  else .ok ⟨minValue, maxValue, List.replicate channelCount minValue⟩

def write (io : AnalogIO F) (channel : Nat) (value : F) : Except HardwareError Unit × AnalogIO F :=
  if channel ≥ io.channels.length then (.error .outOfRange, io)
  else if value < io.minValue ∨ value > io.maxValue then (.error .outOfRange, io)
  else (.ok (), { io with channels := io.channels.set channel value })

end AnalogIO

namespace VirtualMotor

/-- `timeConstant` is in nanoseconds. -/
def create (maxTorque : F) (timeConstant : Int) : Except HardwareError (VirtualMotor F) :=
  if maxTorque ≤ ofInt 0 then .error .invalidConfiguration
  else if (Joint.seconds timeConstant : F) ≤ ofInt 0 then .error .invalidConfiguration
  else .ok ⟨maxTorque, Joint.seconds timeConstant, ofInt 0, ofInt 0⟩

def setCommandedTorque (motor : VirtualMotor F) (torque : F) : Except HardwareError Unit × VirtualMotor F :=
  if torque < -motor.maxTorque ∨ torque > motor.maxTorque then (.error .outOfRange, motor)
  else (.ok (), { motor with commandedTorque := torque })

/-- `update` over `dt` nanoseconds, with `std::exp`. -/
def update (exp : F → F) (motor : VirtualMotor F) (dt : Int) : VirtualMotor F :=
  if (Joint.seconds dt : F) ≤ ofInt 0 then motor
  else
    let alpha := exp (-Joint.seconds dt / motor.timeConstantS)
    { motor with
      torque := motor.commandedTorque + (motor.torque - motor.commandedTorque) * alpha }

end VirtualMotor
end RobotEmu
