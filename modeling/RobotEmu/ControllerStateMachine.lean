import Mathlib.Data.List.Basic

/-! The controller's state machine: two tables of transitions, searched one after the other. An event
without a row for the current state is answered with an error and leaves the state as it is. -/

namespace RobotEmu

inductive ControllerState where
  | powerOff
  | booting
  | initializing
  | idle
  | servoOff
  | servoOn
  | ready
  | moving
  | paused
  | stopping
  | emergencyStop
  | fault
  | recovery
  | shutdown
  deriving DecidableEq, Repr

inductive ControllerEvent where
  | powerOn
  | bootComplete
  | initComplete
  | servoEnable
  | servoDisable
  | controllerReady
  | commandMove
  | motionComplete
  | commandPause
  | commandResume
  | commandStop
  | stopComplete
  | eStopTriggered
  | eStopReset
  | faultDetected
  | recoveryStart
  | recoveryComplete
  | powerOff
  deriving DecidableEq, Repr

inductive ControllerError where
  | invalidTransition
  deriving DecidableEq, Repr

structure Transition where
  source : ControllerState
  event : ControllerEvent
  target : ControllerState

def kTransitionTable : List Transition := [
  ⟨.powerOff, .powerOn, .booting⟩,
  ⟨.booting, .bootComplete, .initializing⟩,
  ⟨.initializing, .initComplete, .idle⟩,
  ⟨.idle, .servoEnable, .servoOn⟩,
  ⟨.servoOff, .servoEnable, .servoOn⟩,
  ⟨.servoOn, .servoDisable, .servoOff⟩,
  ⟨.servoOn, .controllerReady, .ready⟩,
  ⟨.ready, .servoDisable, .servoOff⟩,
  ⟨.ready, .commandMove, .moving⟩,
  ⟨.moving, .motionComplete, .ready⟩,
  ⟨.moving, .commandPause, .paused⟩,
  ⟨.paused, .commandResume, .moving⟩,
  ⟨.moving, .commandStop, .stopping⟩,
  ⟨.paused, .commandStop, .stopping⟩,
  ⟨.ready, .commandStop, .stopping⟩,
  ⟨.stopping, .stopComplete, .ready⟩,
  ⟨.servoOn, .eStopTriggered, .emergencyStop⟩,
  ⟨.ready, .eStopTriggered, .emergencyStop⟩,
  ⟨.moving, .eStopTriggered, .emergencyStop⟩,
  ⟨.paused, .eStopTriggered, .emergencyStop⟩,
  ⟨.stopping, .eStopTriggered, .emergencyStop⟩,
  ⟨.emergencyStop, .eStopReset, .ready⟩,
  ⟨.fault, .recoveryStart, .recovery⟩,
  ⟨.recovery, .recoveryComplete, .ready⟩,
  ⟨.idle, .powerOff, .shutdown⟩,
  ⟨.servoOff, .powerOff, .shutdown⟩]

def kFaultAndShutdownTable : List Transition := [
  ⟨.idle, .faultDetected, .fault⟩,
  ⟨.servoOff, .faultDetected, .fault⟩,
  ⟨.servoOn, .faultDetected, .fault⟩,
  ⟨.ready, .faultDetected, .fault⟩,
  ⟨.moving, .faultDetected, .fault⟩,
  ⟨.paused, .faultDetected, .fault⟩,
  ⟨.stopping, .faultDetected, .fault⟩,
  ⟨.emergencyStop, .faultDetected, .fault⟩,
  ⟨.ready, .powerOff, .shutdown⟩,
  ⟨.fault, .powerOff, .shutdown⟩]

def findTransition (source : ControllerState) (event : ControllerEvent) : Option Transition :=
  let isMatch (t : Transition) := t.source = source ∧ t.event = event
  (kTransitionTable.find? isMatch).or (kFaultAndShutdownTable.find? isMatch)

structure ControllerStateMachine where
  state : ControllerState := .powerOff
  deriving DecidableEq, Repr

namespace ControllerStateMachine

def canHandle (machine : ControllerStateMachine) (event : ControllerEvent) : Bool :=
  (findTransition machine.state event).isSome

def handleEvent (machine : ControllerStateMachine) (event : ControllerEvent) :
    Except ControllerError Unit × ControllerStateMachine :=
  match findTransition machine.state event with
  | none => (.error .invalidTransition, machine)
  | some transition => (.ok (), { machine with state := transition.target })

/-- The machine after an event whose result is discarded. -/
def after (machine : ControllerStateMachine) (event : ControllerEvent) : ControllerStateMachine :=
  (machine.handleEvent event).2

/-- `canHandle` foretells `handleEvent`. -/
theorem canHandle_iff (machine : ControllerStateMachine) (event : ControllerEvent) :
    machine.canHandle event = true ↔ (machine.handleEvent event).1 = .ok () := by
  rw [canHandle, handleEvent]
  cases findTransition machine.state event with
  | none => exact iff_of_false Bool.false_ne_true (by simp)
  | some transition => exact iff_of_true rfl rfl

/-- The power-on sequence that runs before the server serves anyone. -/
def booted : ControllerStateMachine :=
  (((⟨.powerOff⟩ : ControllerStateMachine).after .powerOn).after .bootComplete).after .initComplete

/-! ### The event sequences of the server -/

theorem state_enable (machine : ControllerStateMachine) :
    ((machine.after .servoEnable).after .controllerReady).state =
      match machine.state with
      | .idle | .servoOff | .servoOn => .ready
      | state => state := by
  obtain ⟨state⟩ := machine
  cases state <;> rfl

theorem state_disable (machine : ControllerStateMachine) :
    (machine.after .servoDisable).state =
      match machine.state with
      | .servoOn | .ready => .servoOff
      | state => state := by
  obtain ⟨state⟩ := machine
  cases state <;> rfl

theorem state_commandMove {machine : ControllerStateMachine} (h : machine.state = .ready) :
    (machine.after .commandMove).state = .moving := by
  obtain ⟨state⟩ := machine
  obtain rfl : state = .ready := h
  rfl

theorem state_stop (machine : ControllerStateMachine) :
    ((machine.after .commandStop).after .stopComplete).state =
      match machine.state with
      | .ready | .moving | .paused | .stopping => .ready
      | state => state := by
  obtain ⟨state⟩ := machine
  cases state <;> rfl

theorem state_eStopTriggered (machine : ControllerStateMachine) :
    (machine.after .eStopTriggered).state =
      match machine.state with
      | .servoOn | .ready | .moving | .paused | .stopping => .emergencyStop
      | state => state := by
  obtain ⟨state⟩ := machine
  cases state <;> rfl

end ControllerStateMachine

def ControllerState.toString : ControllerState → String
  | powerOff => "PowerOff"
  | booting => "Booting"
  | initializing => "Initializing"
  | idle => "Idle"
  | servoOff => "ServoOff"
  | servoOn => "ServoOn"
  | ready => "Ready"
  | moving => "Moving"
  | paused => "Paused"
  | stopping => "Stopping"
  | emergencyStop => "EmergencyStop"
  | fault => "Fault"
  | recovery => "Recovery"
  | shutdown => "Shutdown"

theorem ControllerState.length_toString_le (state : ControllerState) :
    state.toString.toList.length ≤ 13 := by
  cases state <;> decide

end RobotEmu
