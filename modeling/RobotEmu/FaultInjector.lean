import Mathlib.Data.List.Induction
import Mathlib.Logic.Function.Basic
import RobotEmu.Machine

/-! `fault_injector.cpp`: a registry of active faults and a dispatcher of handlers. A handler is whatever
the caller registers; a call of it is recorded with its argument. What the two tables hold is said by the
calls made so far: the latest call that affects a fault says whether it is active, and the latest
registration for a type says which handler is called. -/

namespace RobotEmu

inductive FaultType where
  | encoderFailure | motorFailure | overCurrent | overTemperature | communicationTimeout | positionError
  | velocityError | brakeFailure | limitSwitch | emergencyStop | powerFailure
  deriving DecidableEq, Repr

/-- `static_cast<int>(type)`. -/
def FaultType.toInt : FaultType → Int
  | .encoderFailure => 0 | .motorFailure => 1 | .overCurrent => 2 | .overTemperature => 3
  | .communicationTimeout => 4 | .positionError => 5 | .velocityError => 6 | .brakeFailure => 7
  | .limitSwitch => 8 | .emergencyStop => 9 | .powerFailure => 10

theorem FaultType.toInt_injective : Function.Injective FaultType.toInt := by
  intro a b h
  cases a <;> cases b <;> first | rfl | cases h

structure ActiveFault where
  type : FaultType
  jointIndex : Option Nat
  deriving DecidableEq, Repr

/-- A call of a handler. -/
structure Invocation (Handler : Type*) where
  handler : Handler
  jointIndex : Option Nat

structure FaultInjector (Handler : Type*) where
  active : List ActiveFault
  handlers : Int → Option Handler

namespace FaultInjector

variable {Handler : Type*}

def init : FaultInjector Handler := ⟨[], fun _ => none⟩

def onFault (s : FaultInjector Handler) (type : FaultType) (handler : Handler) : FaultInjector Handler :=
  { s with handlers := Function.update s.handlers type.toInt (some handler) }

def inject (s : FaultInjector Handler) (type : FaultType) (jointIndex : Option Nat) :
    FaultInjector Handler × List (Invocation Handler) :=
  let fault : ActiveFault := ⟨type, jointIndex⟩
  ({ s with active := if fault ∈ s.active then s.active else s.active ++ [fault] },
    match s.handlers type.toInt with
    | some handler => [⟨handler, jointIndex⟩]
    | none => [])

/-- `std::erase` removes every copy. -/
def clear (s : FaultInjector Handler) (type : FaultType) (jointIndex : Option Nat) : FaultInjector Handler :=
  { s with active := s.active.filter (· ≠ ⟨type, jointIndex⟩) }

def clearAll (s : FaultInjector Handler) : FaultInjector Handler := { s with active := [] }

def isActive (s : FaultInjector Handler) (type : FaultType) (jointIndex : Option Nat) : Bool :=
  ⟨type, jointIndex⟩ ∈ s.active

def activeFaults (s : FaultInjector Handler) : List ActiveFault := s.active

/-- The calls that change an injector. -/
inductive Call (Handler : Type*) where
  | onFault (type : FaultType) (handler : Handler)
  | inject (type : FaultType) (jointIndex : Option Nat)
  | clear (type : FaultType) (jointIndex : Option Nat)
  | clearAll

def step (s : FaultInjector Handler) : Call Handler → FaultInjector Handler
  | .onFault type handler => s.onFault type handler
  | .inject type jointIndex => (s.inject type jointIndex).1
  | .clear type jointIndex => s.clear type jointIndex
  | .clearAll => s.clearAll

/-- The injector after a sequence of calls. -/
def after (calls : List (Call Handler)) : FaultInjector Handler := Machine.run step init calls

theorem after_concat (calls : List (Call Handler)) (call : Call Handler) :
    after (calls ++ [call]) = step (after calls) call := Machine.run_concat init calls [call]

/-! ### What the calls say -/

/-- Whether a call makes a fault active or inactive, if it affects it. -/
def effectOn (fault : ActiveFault) : Call Handler → Option Bool
  | .inject type jointIndex => if ⟨type, jointIndex⟩ = fault then some true else none
  | .clear type jointIndex => if ⟨type, jointIndex⟩ = fault then some false else none
  | .clearAll => some false
  | .onFault _ _ => none

/-- The last call that affects the fault is an `inject`. -/
def LastInjected (calls : List (Call Handler)) (fault : ActiveFault) : Prop :=
  Machine.latest (effectOn fault) calls = some true

/-- The handler that a call registers for a type. -/
def registers (type : FaultType) : Call Handler → Option Handler
  | .onFault registered handler => if registered = type then some handler else none
  | _ => none

/-- The call at an index takes the fault from inactive to active. -/
def Activates (calls : List (Call Handler)) (index : Nat) (fault : ActiveFault) : Prop :=
  calls[index]? = some (.inject fault.type fault.jointIndex) ∧ ¬LastInjected (calls.take index) fault

/-- The call at an index is the last that takes the fault from inactive to active. -/
def LastActivation (calls : List (Call Handler)) (index : Nat) (fault : ActiveFault) : Prop :=
  Activates calls index fault ∧ ∀ later, index < later → ¬Activates calls later fault

theorem activates_concat_of_lt {calls : List (Call Handler)} {index : Nat} (h : index < calls.length)
    (call : Call Handler) (fault : ActiveFault) :
    Activates (calls ++ [call]) index fault ↔ Activates calls index fault := by
  rw [Activates, Activates, List.getElem?_append_left h, List.take_append_of_le_length (Nat.le_of_lt h)]

theorem activates_concat_length (calls : List (Call Handler)) (call : Call Handler) (fault : ActiveFault) :
    Activates (calls ++ [call]) calls.length fault ↔
      call = .inject fault.type fault.jointIndex ∧ ¬LastInjected calls fault := by
  rw [Activates, List.getElem?_concat_length, List.take_left', Option.some.injEq]
  rfl

theorem Activates.lt {calls : List (Call Handler)} {index : Nat} {fault : ActiveFault}
    (h : Activates calls index fault) : index < calls.length := by
  by_contra hge
  rw [Activates, List.getElem?_eq_none (Nat.le_of_not_lt hge)] at h
  cases h.1

/-- A call that does not take the fault from inactive to active leaves the last one that did. -/
theorem LastActivation.concat {calls : List (Call Handler)} {index : Nat} {fault : ActiveFault}
    (h : LastActivation calls index fault) {call : Call Handler}
    (hcall : call = .inject fault.type fault.jointIndex → LastInjected calls fault) :
    LastActivation (calls ++ [call]) index fault := by
  refine ⟨(activates_concat_of_lt h.1.lt call fault).2 h.1, ?_⟩
  intro later hlater hactivates
  have hlt := hactivates.lt
  rw [List.length_append, List.length_singleton] at hlt
  rcases Nat.lt_or_eq_of_le (Nat.le_of_lt_succ hlt) with hlt | rfl
  · exact h.2 later hlater ((activates_concat_of_lt hlt call fault).1 hactivates)
  · obtain ⟨hinject, hnot⟩ := (activates_concat_length calls call fault).1 hactivates
    exact hnot (hcall hinject)

theorem lastActivation_concat_inject {calls : List (Call Handler)} {fault : ActiveFault}
    (h : ¬LastInjected calls fault) :
    LastActivation (calls ++ [.inject fault.type fault.jointIndex]) calls.length fault := by
  refine ⟨(activates_concat_length _ _ _).2 ⟨rfl, h⟩, ?_⟩
  intro later hlater hactivates
  have hlt := hactivates.lt
  rw [List.length_append, List.length_singleton] at hlt
  omega

/-! ### The registry -/

theorem mem_active_step (s : FaultInjector Handler) (call : Call Handler) (fault : ActiveFault) :
    fault ∈ (step s call).active ↔ (effectOn fault call).getD (decide (fault ∈ s.active)) = true := by
  cases call with
  | onFault type handler => simp [step, onFault, effectOn]
  | inject type jointIndex =>
      by_cases heq : ⟨type, jointIndex⟩ = fault
      · by_cases hmem : fault ∈ s.active <;> simp [step, inject, effectOn, heq, hmem]
      · by_cases hmem : ⟨type, jointIndex⟩ ∈ s.active <;>
          simp [step, inject, effectOn, heq, hmem, Ne.symm heq]
  | clear type jointIndex =>
      by_cases heq : ⟨type, jointIndex⟩ = fault
      · simp [step, clear, effectOn, heq]
      · simp [step, clear, effectOn, heq, Ne.symm heq]
  | clearAll => simp [step, clearAll, effectOn]

/-- A fault is active exactly if the last call that affects it is an `inject`. -/
theorem mem_active_after (calls : List (Call Handler)) (fault : ActiveFault) :
    fault ∈ (after calls).active ↔ LastInjected calls fault := by
  induction calls using List.reverseRecOn with
  | nil => simp [after, Machine.run, init, LastInjected]
  | append_singleton calls call ih =>
      rw [after_concat, mem_active_step, LastInjected, Machine.latest_concat]
      rw [LastInjected] at ih
      cases effectOn fault call with
      | some effect => simp
      | none => simp [ih]

/-- The list holds no fault twice, and the faults in the order of their last activations. -/
def Ordered (calls : List (Call Handler)) (active : List ActiveFault) (time : ActiveFault → Nat) : Prop :=
  (∀ fault ∈ active, LastActivation calls (time fault) fault) ∧
    active.Pairwise fun earlier later => time earlier < time later

theorem Ordered.nodup {calls : List (Call Handler)} {active : List ActiveFault} {time : ActiveFault → Nat}
    (h : Ordered calls active time) : active.Nodup :=
  h.2.imp fun hlt heq => absurd (congrArg time heq) (Nat.ne_of_lt hlt)

/-- A call that activates nothing keeps the order of what it leaves active. -/
theorem Ordered.sublist {calls : List (Call Handler)} {active rest : List ActiveFault}
    {time : ActiveFault → Nat} (h : Ordered calls active time) (hrest : rest.Sublist active)
    {call : Call Handler}
    (hcall : ∀ fault ∈ rest, call = .inject fault.type fault.jointIndex → LastInjected calls fault) :
    Ordered (calls ++ [call]) rest time :=
  ⟨fun fault hmem => (h.1 fault (hrest.subset hmem)).concat (hcall fault hmem), h.2.sublist hrest⟩

/-- An `inject` of a fault that is not active puts it last. -/
theorem Ordered.inject {calls : List (Call Handler)} {active : List ActiveFault} {time : ActiveFault → Nat}
    (h : Ordered calls active time) {fault : ActiveFault} (hmem : fault ∉ active)
    (hlast : ¬LastInjected calls fault) :
    Ordered (calls ++ [.inject fault.type fault.jointIndex]) (active ++ [fault])
      (Function.update time fault calls.length) := by
  have hne : ∀ other ∈ active, other ≠ fault := fun other hother heq => hmem (heq ▸ hother)
  have htime : ∀ other ∈ active, Function.update time fault calls.length other = time other :=
    fun other hother => Function.update_of_ne (hne other hother) _ _
  refine ⟨?_, ?_⟩
  · intro other hother
    rcases List.mem_append.1 hother with hother | hother
    · rw [htime other hother]
      apply (h.1 other hother).concat
      intro hinject
      obtain ⟨htype, hjoint⟩ := Call.inject.inj hinject
      exact absurd (by cases other; cases fault; simp_all) (hne other hother)
    · rw [List.mem_singleton.1 hother, Function.update_self]
      exact lastActivation_concat_inject hlast
  · rw [List.pairwise_append]
    refine ⟨?_, List.pairwise_singleton _ _, ?_⟩
    · refine h.2.imp_of_mem fun hearlier hlater hlt => ?_
      rwa [htime _ hearlier, htime _ hlater]
    · intro earlier hearlier later hlater
      rw [List.mem_singleton.1 hlater, Function.update_self, htime earlier hearlier]
      exact (h.1 earlier hearlier).1.lt

theorem exists_ordered_after (calls : List (Call Handler)) :
    ∃ time, Ordered calls (after calls).active time := by
  induction calls using List.reverseRecOn with
  | nil => exact ⟨fun _ => 0, fun fault hmem => absurd hmem List.not_mem_nil, List.Pairwise.nil⟩
  | append_singleton calls call ih =>
      obtain ⟨time, h⟩ := ih
      rw [after_concat]
      cases call with
      | onFault type handler => exact ⟨time, h.sublist (List.Sublist.refl _) fun _ _ heq => by cases heq⟩
      | inject type jointIndex =>
          by_cases hmem : ⟨type, jointIndex⟩ ∈ (after calls).active
          · rw [step, FaultInjector.inject, if_pos hmem]
            exact ⟨time, h.sublist (List.Sublist.refl _) fun fault hfault _ =>
              (mem_active_after calls fault).1 hfault⟩
          · rw [step, FaultInjector.inject, if_neg hmem]
            have hlast := mt (mem_active_after calls ⟨type, jointIndex⟩).2 hmem
            exact ⟨_, h.inject hmem hlast⟩
      | clear type jointIndex => exact ⟨time, h.sublist List.filter_sublist fun _ _ heq => by cases heq⟩
      | clearAll => exact ⟨time, h.sublist (List.nil_sublist _) fun _ hfault => absurd hfault List.not_mem_nil⟩

/-! ### The handlers -/

theorem handlers_after (calls : List (Call Handler)) (type : FaultType) :
    (after calls).handlers type.toInt = Machine.latest (registers type) calls := by
  induction calls using List.reverseRecOn with
  | nil => rfl
  | append_singleton calls call ih =>
      rw [after_concat, Machine.latest_concat, ← ih]
      cases call with
      | onFault registered handler =>
          by_cases heq : registered = type
          · simp [step, onFault, registers, heq]
          · have hkey : type.toInt ≠ registered.toInt := fun h => heq (FaultType.toInt_injective h).symm
            simp [step, onFault, registers, heq, Function.update_of_ne hkey]
      | inject | clear | clearAll => rfl

/-- The law of the registry after any sequence of calls. An `inject` then calls the handler registered
last for its type, with its joint, and no other. -/
theorem registry_law (calls : List (Call Handler)) :
    (after calls).activeFaults.Nodup ∧
      (∀ fault, fault ∈ (after calls).activeFaults ↔ LastInjected calls fault) ∧
      (∃ time : ActiveFault → Nat,
        (∀ fault ∈ (after calls).activeFaults, LastActivation calls (time fault) fault) ∧
          (after calls).activeFaults.Pairwise fun earlier later => time earlier < time later) ∧
      (∀ type jointIndex, (after calls).isActive type jointIndex = true ↔
        ⟨type, jointIndex⟩ ∈ (after calls).activeFaults) ∧
      ∀ type jointIndex, ((after calls).inject type jointIndex).2 =
        ((Machine.latest (registers type) calls).map fun handler => ⟨handler, jointIndex⟩).toList := by
  obtain ⟨time, hordered⟩ := exists_ordered_after calls
  refine ⟨hordered.nodup, mem_active_after calls, ⟨time, hordered⟩, ?_, ?_⟩
  · intro type jointIndex
    rw [isActive, decide_eq_true_iff]
    rfl
  · intro type jointIndex
    rw [inject, ← handlers_after]
    cases (after calls).handlers type.toInt <;> rfl

end FaultInjector
end RobotEmu
