import RobotEmu.Machine
import RobotEmu.ControllerStateMachine

/-! What the state machine has accepted when it lets a motion start. The transitions into the states with
motion authority come from a servo enable or from the end of a recovery, and the end of a recovery also
clears an emergency stop that a fault was detected in. -/

namespace RobotEmu

open Machine

namespace ControllerState

/-- The servos are on. -/
def Armed (state : ControllerState) : Prop :=
  state ∈ [servoOn, ready, moving, paused, stopping, emergencyStop]

/-- No emergency stop is pending, nor can one have led here without its reset. -/
def Released (state : ControllerState) : Prop :=
  state ∉ [emergencyStop, fault, recovery, shutdown]

instance : DecidablePred Armed := fun _ => inferInstanceAs (Decidable (_ ∈ _))

instance : DecidablePred Released := fun _ => inferInstanceAs (Decidable (_ ∉ _))

end ControllerState

/-- What gives motion authority. -/
def ControllerEvent.Arms (event : ControllerEvent) : Prop :=
  event = .servoEnable ∨ event = .recoveryComplete

/-- What clears an emergency stop. -/
def ControllerEvent.Releases (event : ControllerEvent) : Prop :=
  event = .eStopReset ∨ event = .recoveryComplete

instance : DecidablePred ControllerEvent.Arms := fun _ => inferInstanceAs (Decidable (_ ∨ _))

instance : DecidablePred ControllerEvent.Releases := fun _ => inferInstanceAs (Decidable (_ ∨ _))

/-! ### The tables -/

theorem arms_of_transition : ∀ transition ∈ kTransitionTable ++ kFaultAndShutdownTable,
    transition.target.Armed → transition.event.Arms ∨
      transition.source.Armed ∧ transition.event ≠ .servoDisable := by
  decide

theorem releases_of_transition : ∀ transition ∈ kTransitionTable ++ kFaultAndShutdownTable,
    transition.target.Released → transition.event.Releases ∨
      transition.source.Released ∧ transition.event ≠ .eStopTriggered := by
  decide

theorem source_of_commandMove : ∀ transition ∈ kTransitionTable ++ kFaultAndShutdownTable,
    transition.event = .commandMove → transition.source.Armed ∧ transition.source.Released := by
  decide

/-- What is found is a row of one of the tables, for the state and the event asked for. -/
theorem mem_of_findTransition {source : ControllerState} {event : ControllerEvent}
    {transition : Transition} (h : findTransition source event = some transition) :
    transition ∈ kTransitionTable ++ kFaultAndShutdownTable ∧
      transition.source = source ∧ transition.event = event := by
  have hrows : (kTransitionTable ++ kFaultAndShutdownTable).find?
      (fun t => decide (t.source = source ∧ t.event = event)) = some transition := by
    rw [List.find?_append]
    exact h
  have hmatch := List.find?_some hrows
  exact ⟨List.mem_of_find?_eq_some hrows, of_decide_eq_true hmatch⟩

namespace ControllerStateMachine

/-- A machine that has handled nothing yet. -/
def fresh : ControllerStateMachine := ⟨.powerOff⟩

/-- `handleEvent` answers without an error. -/
def Accepts (machine : ControllerStateMachine) (event : ControllerEvent) : Prop :=
  (machine.handleEvent event).1 = .ok ()

instance (machine : ControllerStateMachine) (event : ControllerEvent) :
    Decidable (machine.Accepts event) := inferInstanceAs (Decidable (_ = _))

/-- An accepted event takes a row of the tables; a rejected one changes nothing. -/
theorem after_cases (machine : ControllerStateMachine) (event : ControllerEvent) :
    (machine.Accepts event ∧ ∃ transition ∈ kTransitionTable ++ kFaultAndShutdownTable,
      transition.source = machine.state ∧ transition.event = event ∧
        (machine.after event).state = transition.target) ∨
    (¬machine.Accepts event ∧ machine.after event = machine) := by
  unfold Accepts after handleEvent
  cases hfind : findTransition machine.state event with
  | none => exact .inr ⟨by simp, rfl⟩
  | some transition =>
      obtain ⟨hmem, hsource, hevent⟩ := mem_of_findTransition hfind
      exact .inl ⟨rfl, transition, hmem, hsource, hevent, rfl⟩

theorem armed_after (machine : ControllerStateMachine) (event : ControllerEvent)
    (h : (machine.after event).state.Armed) :
    machine.Accepts event ∧ event.Arms ∨
      machine.state.Armed ∧ (machine.Accepts event → event ≠ .servoDisable) := by
  rcases machine.after_cases event with ⟨haccepts, transition, hmem, hsource, rfl, htarget⟩ | ⟨hnot, hsame⟩
  · rw [htarget] at h
    rcases arms_of_transition transition hmem h with harms | ⟨harmed, hne⟩
    · exact .inl ⟨haccepts, harms⟩
    · exact .inr ⟨hsource ▸ harmed, fun _ => hne⟩
  · rw [hsame] at h
    exact .inr ⟨h, fun haccepts => absurd haccepts hnot⟩

theorem released_after (machine : ControllerStateMachine) (event : ControllerEvent)
    (h : (machine.after event).state.Released) :
    machine.Accepts event ∧ event.Releases ∨
      machine.state.Released ∧ (machine.Accepts event → event ≠ .eStopTriggered) := by
  rcases machine.after_cases event with ⟨haccepts, transition, hmem, hsource, rfl, htarget⟩ | ⟨hnot, hsame⟩
  · rw [htarget] at h
    rcases releases_of_transition transition hmem h with hreleases | ⟨hreleased, hne⟩
    · exact .inl ⟨haccepts, hreleases⟩
    · exact .inr ⟨hsource ▸ hreleased, fun _ => hne⟩
  · rw [hsame] at h
    exact .inr ⟨h, fun haccepts => absurd haccepts hnot⟩

/-- Motion starts only from a state that is armed and released. -/
theorem state_of_accepts_commandMove {machine : ControllerStateMachine} (h : machine.Accepts .commandMove) :
    machine.state.Armed ∧ machine.state.Released := by
  rcases machine.after_cases .commandMove with ⟨-, transition, hmem, hsource, hevent, -⟩ | ⟨hnot, -⟩
  · rw [← hsource]
    exact source_of_commandMove transition hmem hevent
  · exact absurd h hnot

/-- The events that a fresh machine has accepted of a sequence fed to it. -/
def history (events : List ControllerEvent) : List ControllerEvent := accepted after Accepts fresh events

/-- When `CommandMove` is accepted, a `ServoEnable` or the end of a recovery has been accepted with no
`ServoDisable` after it, and after the last `EStopTriggered`, if any, its reset or the end of a recovery. -/
theorem history_of_commandMove (events : List ControllerEvent)
    (h : (run after fresh events).Accepts .commandMove) :
    Since ControllerEvent.Arms (· = .servoDisable) (history events) ∧
      (.eStopTriggered ∈ history events →
        Since ControllerEvent.Releases (· = .eStopTriggered) (history events)) := by
  obtain ⟨harmed, hreleased⟩ := state_of_accepts_commandMove h
  constructor
  · exact since_of_armed (fun machine => machine.state.Armed)
      (fun machine event hnext => machine.armed_after event hnext) (by decide) events harmed
  · intro hmem
    exact since_last_of_armed (fun machine => machine.state.Released)
      (fun machine event hnext => machine.released_after event hnext) events hreleased ⟨_, hmem, rfl⟩

/-- Enabled, stopped in an emergency, reset and stopped once more, and stopped and reset again. -/
def stoppedTwice : List ControllerEvent :=
  [.powerOn, .bootComplete, .initComplete, .servoEnable, .controllerReady, .eStopTriggered, .eStopReset,
    .commandMove, .eStopTriggered, .servoDisable, .eStopReset]

theorem history_of_commandMove_stoppedTwice :
    Since ControllerEvent.Arms (· = .servoDisable) (history stoppedTwice) ∧
      (.eStopTriggered ∈ history stoppedTwice →
        Since ControllerEvent.Releases (· = .eStopTriggered) (history stoppedTwice)) :=
  history_of_commandMove stoppedTwice (by decide)

/-- A fault on an idle controller, recovered from, leads to motion although no servo was ever enabled. -/
theorem not_servoEnable_before_commandMove :
    ¬∀ events, (run after fresh events).Accepts .commandMove →
      Since (· = .servoEnable) (· = .servoDisable) (history events) ∧
        (.eStopTriggered ∈ history events →
          Since (· = .eStopReset) (· = .eStopTriggered) (history events)) := by
  intro hall
  obtain ⟨before, event, later, heq, rfl, -⟩ := (hall [.powerOn, .bootComplete, .initComplete,
    .faultDetected, .recoveryStart, .recoveryComplete] (by decide)).1
  have hmem : ControllerEvent.servoEnable ∈ history [.powerOn, .bootComplete, .initComplete,
      .faultDetected, .recoveryStart, .recoveryComplete] := by
    rw [heq]
    exact List.mem_append_right _ List.mem_cons_self
  revert hmem
  decide

end ControllerStateMachine
end RobotEmu
