import RobotEmu.Machine
import RobotEmu.SafetyWatchdog

/-! The watchdog's operations as they run on threads of their own: sequences of atomic reads and writes of
the shared members, of looks at the heartbeat and at the clock, interleaved in any way. An operation in
progress is its next step with the values it has read so far; what has returned stays in the list. -/

namespace RobotEmu

open Machine

namespace Watchdog

inductive StartStage where
  | exchange
  | readCounter
  | storeCounter (counter : BitVec 64)
  | readTime
  | storeTime (now : Int)
  | clear
  | spawn
  | returned (result : Except WatchdogError Unit)

inductive StopStage where
  | exchange
  | requestStop
  | join
  | returned (result : Except WatchdogError Unit)

inductive ResetStage where
  | clear
  | readCounter
  | storeCounter (counter : BitVec 64)
  | readTime
  | storeTime (now : Int)
  | returned

inductive PollStage where
  | sleep
  | readCounter
  | loadCounter (current : BitVec 64)
  | readTime (current previous : BitVec 64)
  | storeCounter (current : BitVec 64) (now : Int)
  | storeTime (now : Int)
  | loadTime (current previous : BitVec 64) (now : Int)
  | raise (current previous : BitVec 64) (now lastChange : Int)
  | exited

/-- A call of the watchdog, or the loop of a thread it has spawned, and how far it has got. A reset keeps
the time it began at. -/
inductive Operation where
  | start (stage : StartStage)
  | stop (stage : StopStage)
  | reset (began : Int) (stage : ResetStage)
  | runLoop (thread : Nat) (stage : PollStage)

/-- Threads are numbered as they are spawned: `thread_` is the last one, and those up to `stopRequested`
have been asked to stop. -/
structure Execution where
  watchdog : Watchdog
  clock : Int
  operations : List Operation
  thread : Nat
  stopRequested : Nat

inductive Move where
  | callStart
  | callStop
  | callReset
  | step (index : Nat) (heartbeat : BitVec 64)
  | tick (elapsed : Nat)

namespace Execution

def create (timeout clock : Int) : Execution where
  watchdog := { timeout := timeout }
  clock := clock
  operations := []
  thread := 0
  stopRequested := 0

def call (execution : Execution) (operation : Operation) : Execution :=
  { execution with operations := execution.operations ++ [operation] }

/-- One operation goes on, and leaves the watchdog as given. -/
def put (execution : Execution) (index : Nat) (operation : Operation) (watchdog : Watchdog) : Execution :=
  { execution with watchdog := watchdog, operations := execution.operations.set index operation }

def advanceStart (execution : Execution) (index : Nat) (heartbeat : BitVec 64) : StartStage → Execution
  | .exchange =>
      if execution.watchdog.running then
        execution.put index (.start (.returned (.error .alreadyRunning))) execution.watchdog
      else execution.put index (.start .readCounter) { execution.watchdog with running := true }
  | .readCounter => execution.put index (.start (.storeCounter heartbeat)) execution.watchdog
  | .storeCounter counter =>
      execution.put index (.start .readTime) { execution.watchdog with lastSeenCounter := counter }
  | .readTime => execution.put index (.start (.storeTime execution.clock)) execution.watchdog
  | .storeTime now =>
      execution.put index (.start .clear) { execution.watchdog with lastChangeTimeNs := now }
  | .clear => execution.put index (.start .spawn) { execution.watchdog with tripped := false }
  | .spawn =>
      { execution.put index (.start (.returned (.ok ()))) execution.watchdog with
        operations := execution.operations.set index (.start (.returned (.ok ()))) ++
          [.runLoop (execution.thread + 1) .sleep]
        thread := execution.thread + 1
        stopRequested := execution.thread }
  | .returned _ => execution

def advanceStop (execution : Execution) (index : Nat) : StopStage → Execution
  | .exchange =>
      if execution.watchdog.running then
        execution.put index (.stop .requestStop) { execution.watchdog with running := false }
      else execution.put index (.stop (.returned (.error .notRunning))) execution.watchdog
  | .requestStop =>
      { execution.put index (.stop .join) execution.watchdog with stopRequested := execution.thread }
  | .join =>
      -- blocks as long as the thread runs
      if execution.operations.any (fun
          | .runLoop _ .exited => false
          | .runLoop thread _ => thread = execution.thread
          | _ => false) then execution
      else execution.put index (.stop (.returned (.ok ()))) execution.watchdog
  | .returned _ => execution

def advanceReset (execution : Execution) (index : Nat) (heartbeat : BitVec 64) (began : Int) :
    ResetStage → Execution
  | .clear => execution.put index (.reset began .readCounter) { execution.watchdog with tripped := false }
  | .readCounter => execution.put index (.reset began (.storeCounter heartbeat)) execution.watchdog
  | .storeCounter counter =>
      execution.put index (.reset began .readTime) { execution.watchdog with lastSeenCounter := counter }
  | .readTime => execution.put index (.reset began (.storeTime execution.clock)) execution.watchdog
  | .storeTime now =>
      execution.put index (.reset began .returned) { execution.watchdog with lastChangeTimeNs := now }
  | .returned => execution

def advancePoll (execution : Execution) (index : Nat) (heartbeat : BitVec 64) (thread : Nat) :
    PollStage → Execution
  | .sleep =>
      if thread ≤ execution.stopRequested then
        execution.put index (.runLoop thread .exited) execution.watchdog
      else execution.put index (.runLoop thread .readCounter) execution.watchdog
  | .readCounter => execution.put index (.runLoop thread (.loadCounter heartbeat)) execution.watchdog
  | .loadCounter current =>
      execution.put index (.runLoop thread (.readTime current execution.watchdog.lastSeenCounter))
        execution.watchdog
  | .readTime current previous =>
      if current ≠ previous then
        execution.put index (.runLoop thread (.storeCounter current execution.clock)) execution.watchdog
      else
        execution.put index (.runLoop thread (.loadTime current previous execution.clock))
          execution.watchdog
  | .storeCounter current now =>
      execution.put index (.runLoop thread (.storeTime now))
        { execution.watchdog with lastSeenCounter := current }
  | .storeTime now =>
      execution.put index (.runLoop thread .sleep) { execution.watchdog with lastChangeTimeNs := now }
  | .loadTime current previous now =>
      if now - execution.watchdog.lastChangeTimeNs ≥ execution.watchdog.timeout then
        execution.put index
          (.runLoop thread (.raise current previous now execution.watchdog.lastChangeTimeNs))
          execution.watchdog
      else execution.put index (.runLoop thread .sleep) execution.watchdog
  | .raise _ _ _ _ =>
      execution.put index (.runLoop thread .sleep) { execution.watchdog with tripped := true }
  | .exited => execution

def advance (execution : Execution) (index : Nat) (heartbeat : BitVec 64) : Operation → Execution
  | .start stage => execution.advanceStart index heartbeat stage
  | .stop stage => execution.advanceStop index stage
  | .reset began stage => execution.advanceReset index heartbeat began stage
  | .runLoop thread stage => execution.advancePoll index heartbeat thread stage

def next (execution : Execution) : Move → Execution
  | .callStart => execution.call (.start .exchange)
  | .callStop => execution.call (.stop .exchange)
  | .callReset => execution.call (.reset execution.clock .clear)
  | .step index heartbeat =>
      match execution.operations[index]? with
      | none => execution
      | some operation => execution.advance index heartbeat operation
  | .tick elapsed => { execution with clock := execution.clock + elapsed }

/-! ### Operations on their own

With nothing in between, the steps of an operation do what the operation does as a whole. -/

@[simp] theorem watchdog_put (execution : Execution) (index : Nat) (operation : Operation)
    (watchdog : Watchdog) : (execution.put index operation watchdog).watchdog = watchdog := rfl

@[simp] theorem clock_put (execution : Execution) (index : Nat) (operation : Operation)
    (watchdog : Watchdog) : (execution.put index operation watchdog).clock = execution.clock := rfl

theorem put_put (execution : Execution) (index : Nat) (operation operation' : Operation)
    (watchdog watchdog' : Watchdog) :
    (execution.put index operation watchdog).put index operation' watchdog' =
      execution.put index operation' watchdog' := by
  rw [put, put, put, List.set_set]

theorem next_of_getElem? {execution : Execution} {index : Nat} {operation : Operation}
    (hget : execution.operations[index]? = some operation) (heartbeat : BitVec 64) :
    execution.next (.step index heartbeat) = execution.advance index heartbeat operation := by
  rw [next, hget]

theorem next_put {execution : Execution} {index : Nat} (hlt : index < execution.operations.length)
    (operation : Operation) (watchdog : Watchdog) (heartbeat : BitVec 64) :
    (execution.put index operation watchdog).next (.step index heartbeat) =
      (execution.put index operation watchdog).advance index heartbeat operation :=
  next_of_getElem? (List.getElem?_set_self hlt) heartbeat

theorem run_reset_alone {execution : Execution} {index : Nat} {began : Int}
    (hget : execution.operations[index]? = some (.reset began .clear)) (heartbeat : BitVec 64) :
    run next execution (List.replicate 5 (.step index heartbeat)) =
      execution.put index (.reset began .returned) (execution.watchdog.reset ⟨execution.clock, heartbeat⟩) := by
  have hlt : index < execution.operations.length := (List.getElem?_eq_some_iff.1 hget).1
  simp only [List.replicate, run_cons, next_of_getElem? hget, next_put hlt, advance, advanceReset, put_put]
  rfl

theorem run_start_alone {execution : Execution} {index : Nat}
    (hget : execution.operations[index]? = some (.start .exchange)) (heartbeat : BitVec 64) :
    (run next execution (List.replicate 7 (.step index heartbeat))).watchdog =
      (execution.watchdog.start ⟨execution.clock, heartbeat⟩).2 := by
  have hlt : index < execution.operations.length := (List.getElem?_eq_some_iff.1 hget).1
  simp only [List.replicate, run_cons, next_of_getElem? hget, advance, advanceStart, Watchdog.start]
  split_ifs with hrunning
  · simp only [next_put hlt, advance, advanceStart]
    rfl
  · simp only [next_put hlt, advance, advanceStart, put_put]
    rfl

theorem run_stop_alone {execution : Execution} {index : Nat}
    (hget : execution.operations[index]? = some (.stop .exchange)) (heartbeat : BitVec 64) :
    (execution.next (.step index heartbeat)).watchdog = execution.watchdog.stop.2 := by
  simp only [next_of_getElem? hget, advance, advanceStop, Watchdog.stop]
  cases hrunning : execution.watchdog.running <;> rfl

theorem run_poll_alone {execution : Execution} {index thread : Nat}
    (hget : execution.operations[index]? = some (.runLoop thread .readCounter)) (heartbeat : BitVec 64) :
    (run next execution (List.replicate 5 (.step index heartbeat))).watchdog =
      execution.watchdog.poll ⟨execution.clock, heartbeat⟩ := by
  have hlt : index < execution.operations.length := (List.getElem?_eq_some_iff.1 hget).1
  simp only [List.replicate, run_cons, next_of_getElem? hget, next_put hlt, advance, advancePoll, put_put,
    watchdog_put, clock_put, Watchdog.poll]
  split_ifs with hchanged hle
  · simp only [next_put hlt, advance, advancePoll, put_put, watchdog_put]
    rfl
  · simp only [next_put hlt, advance, advancePoll, watchdog_put, if_pos hle, put_put]
    rfl
  · simp only [next_put hlt, advance, advancePoll, watchdog_put, if_neg hle, put_put]
    split_ifs <;> rfl

end Execution

/-! ### What is in progress -/

namespace Operation

/-- The time that a poll counts from which is about to raise the latch. -/
def raising : Operation → Option Int
  | .runLoop _ (.raise _ _ _ lastChange) => some lastChange
  | _ => none

/-- The beginning of a reset that has cleared the latch. -/
def cleared : Operation → Option Int
  | .reset _ .clear => none
  | .reset began _ => some began
  | _ => none

/-- The beginning of a reset that has returned. -/
def returned : Operation → Option Int
  | .reset began .returned => some began
  | _ => none

/-- The beginning of a reset that has cleared the latch and not returned yet. -/
def underWay : Operation → Option Int
  | .reset _ .clear => none
  | .reset _ .returned => none
  | .reset began _ => some began
  | _ => none

/-- What the values an operation has read say of it, at the time of the clock. -/
def Sound (timeout clock : Int) : Operation → Prop
  | .reset began (.storeTime now) => began ≤ clock ∧ began ≤ now
  | .reset began _ => began ≤ clock
  | .runLoop _ (.loadTime current previous _) => current = previous
  | .runLoop _ (.raise current previous now lastChange) =>
      current = previous ∧ timeout ≤ now - lastChange
  | _ => True

theorem Sound.mono {timeout clock clock' : Int} (hle : clock ≤ clock') {operation : Operation}
    (h : operation.Sound timeout clock) : operation.Sound timeout clock' := by
  unfold Sound at h ⊢
  split at h
  · exact ⟨Int.le_trans h.1 hle, h.2⟩
  · exact Int.le_trans h hle
  · exact h
  · exact h
  · trivial

theorem began_le_of_sound {timeout clock began : Int} {stage : ResetStage}
    (h : (reset began stage).Sound timeout clock) : began ≤ clock := by
  cases stage with
  | storeTime now => exact h.1
  | clear | readCounter | storeCounter counter | readTime | returned => exact h

theorem returned_or_underWay_of_cleared {operation : Operation} {t : Int}
    (h : operation.cleared = some t) : operation.returned = some t ∨ operation.underWay = some t := by
  cases operation with
  | start stage => exact absurd h (Option.some_ne_none t).symm
  | stop stage => exact absurd h (Option.some_ne_none t).symm
  | runLoop thread stage => exact absurd h (Option.some_ne_none t).symm
  | reset began stage =>
      cases stage with
      | clear => exact absurd h (Option.some_ne_none t).symm
      | returned => exact .inl h
      | readCounter | storeCounter counter | readTime | storeTime now => exact .inr h

end Operation

namespace Execution

def raising (execution : Execution) : List Int := execution.operations.filterMap Operation.raising

def cleared (execution : Execution) : List Int := execution.operations.filterMap Operation.cleared

def returned (execution : Execution) : List Int := execution.operations.filterMap Operation.returned

def underWay (execution : Execution) : List Int := execution.operations.filterMap Operation.underWay

/-- Every operation is sound for the values it has read. -/
def Sound (execution : Execution) : Prop :=
  ∀ operation ∈ execution.operations, operation.Sound execution.watchdog.timeout execution.clock

theorem Sound.put {execution : Execution} (h : execution.Sound) {index : Nat} {operation : Operation}
    {watchdog : Watchdog} (htimeout : watchdog.timeout = execution.watchdog.timeout)
    (hoperation : operation.Sound execution.watchdog.timeout execution.clock) :
    (execution.put index operation watchdog).Sound := by
  intro other hother
  rw [Execution.put, htimeout]
  rcases List.mem_or_eq_of_mem_set hother with hmem | rfl
  · exact h other hmem
  · exact hoperation

theorem Sound.concat {execution : Execution} (h : execution.Sound) {operation : Operation}
    (hoperation : operation.Sound execution.watchdog.timeout execution.clock) :
    (execution.call operation).Sound := by
  intro other hother
  rcases List.mem_append.1 hother with hmem | hmem
  · exact h other hmem
  · rw [List.mem_singleton.1 hmem]
    exact hoperation

theorem Sound.start {execution : Execution} (h : execution.Sound) (index : Nat) (heartbeat : BitVec 64)
    (stage : StartStage) : (execution.advanceStart index heartbeat stage).Sound := by
  cases stage with
  | exchange =>
      rw [advanceStart]
      split_ifs
      · exact h.put rfl trivial
      · exact h.put rfl trivial
  | readCounter | storeCounter counter | readTime | storeTime now | clear => exact h.put rfl trivial
  | spawn =>
      have hreturned : (execution.put index (.start (.returned (.ok ()))) execution.watchdog).Sound :=
        h.put rfl trivial
      have hspawned : (Execution.call _ (.runLoop (execution.thread + 1) .sleep)).Sound :=
        hreturned.concat trivial
      exact hspawned
  | returned result => exact h

theorem Sound.stop {execution : Execution} (h : execution.Sound) (index : Nat) (stage : StopStage) :
    (execution.advanceStop index stage).Sound := by
  cases stage with
  | exchange =>
      rw [advanceStop]
      split_ifs
      · exact h.put rfl trivial
      · exact h.put rfl trivial
  | requestStop =>
      have hjoin : (execution.put index (.stop .join) execution.watchdog).Sound := h.put rfl trivial
      exact hjoin
  | join =>
      rw [advanceStop]
      split_ifs
      · exact h
      · exact h.put rfl trivial
  | returned result => exact h

theorem Sound.reset {execution : Execution} (h : execution.Sound) (index : Nat) (heartbeat : BitVec 64)
    {began : Int} {stage : ResetStage}
    (hoperation : (Operation.reset began stage).Sound execution.watchdog.timeout execution.clock) :
    (execution.advanceReset index heartbeat began stage).Sound := by
  have hbegan := Operation.began_le_of_sound hoperation
  cases stage with
  | clear | readCounter | storeCounter counter | storeTime now => exact h.put rfl hbegan
  | readTime => exact h.put rfl ⟨hbegan, hbegan⟩
  | returned => exact h

theorem Sound.poll {execution : Execution} (h : execution.Sound) (index : Nat) (heartbeat : BitVec 64)
    {thread : Nat} {stage : PollStage}
    (hoperation : (Operation.runLoop thread stage).Sound execution.watchdog.timeout execution.clock) :
    (execution.advancePoll index heartbeat thread stage).Sound := by
  cases stage with
  | sleep =>
      rw [advancePoll]
      split_ifs
      · exact h.put rfl trivial
      · exact h.put rfl trivial
  | readCounter | loadCounter current | storeCounter current now | storeTime now
    | raise current previous now lastChange => exact h.put rfl trivial
  | readTime current previous =>
      rw [advancePoll]
      split_ifs with hne
      · exact h.put rfl trivial
      · exact h.put rfl (show current = previous from Decidable.not_not.1 hne)
  | loadTime current previous now =>
      rw [advancePoll]
      split_ifs with hle
      · exact h.put rfl ⟨hoperation, hle⟩
      · exact h.put rfl trivial
  | exited => exact h

theorem Sound.next {execution : Execution} (h : execution.Sound) (move : Move) :
    (execution.next move).Sound := by
  cases move with
  | callStart => exact h.concat trivial
  | callStop => exact h.concat trivial
  | callReset => exact h.concat (Int.le_refl _)
  | tick elapsed =>
      intro operation hmem
      exact (h operation hmem).mono (by show execution.clock ≤ execution.clock + elapsed; omega)
  | step index heartbeat =>
      rw [Execution.next]
      cases hget : execution.operations[index]? with
      | none => exact h
      | some operation =>
          have hoperation := h operation (List.mem_of_getElem? hget)
          cases operation with
          | start stage => exact h.start index heartbeat stage
          | stop stage => exact h.stop index stage
          | reset began stage => exact h.reset index heartbeat hoperation
          | runLoop thread stage => exact h.poll index heartbeat hoperation

/-! ### What a step touches -/

/-- The steps that touch the latch or the time of the last change, or that load the time a poll is going to
raise the latch on. -/
inductive Touches (execution : Execution) (index : Nat) : Operation → Execution → Prop
  | startClears : Touches execution index (.start .clear)
      (execution.put index (.start .spawn) { execution.watchdog with tripped := false })
  | startStores (now : Int) : Touches execution index (.start (.storeTime now))
      (execution.put index (.start .clear) { execution.watchdog with lastChangeTimeNs := now })
  | resetClears (began : Int) : Touches execution index (.reset began .clear)
      (execution.put index (.reset began .readCounter) { execution.watchdog with tripped := false })
  | resetStores (began now : Int) : Touches execution index (.reset began (.storeTime now))
      (execution.put index (.reset began .returned) { execution.watchdog with lastChangeTimeNs := now })
  | pollStores (thread : Nat) (now : Int) : Touches execution index (.runLoop thread (.storeTime now))
      (execution.put index (.runLoop thread .sleep) { execution.watchdog with lastChangeTimeNs := now })
  | pollLoads (thread : Nat) (current previous : BitVec 64) (now : Int)
      (h : now - execution.watchdog.lastChangeTimeNs ≥ execution.watchdog.timeout) :
      Touches execution index (.runLoop thread (.loadTime current previous now))
        (execution.put index
          (.runLoop thread (.raise current previous now execution.watchdog.lastChangeTimeNs))
          execution.watchdog)
  | pollRaises (thread : Nat) (current previous : BitVec 64) (now lastChange : Int) :
      Touches execution index (.runLoop thread (.raise current previous now lastChange))
        (execution.put index (.runLoop thread .sleep) { execution.watchdog with tripped := true })

/-- A move that adds nothing to what is in progress, and loses no reset that has cleared. -/
structure Adds (execution execution' : Execution) : Prop where
  raising : execution'.raising ⊆ execution.raising
  cleared : execution'.cleared ⊆ execution.cleared
  returned : execution'.returned ⊆ execution.returned
  kept : execution.cleared ⊆ execution'.cleared

/-- A move that touches neither the latch nor the time of the last change, nor adds to what is in
progress. -/
structure Quiet (execution execution' : Execution) : Prop extends Adds execution execution' where
  tripped : execution'.watchdog.tripped = execution.watchdog.tripped
  lastChange : execution'.watchdog.lastChangeTimeNs = execution.watchdog.lastChangeTimeNs

theorem Quiet.refl (execution : Execution) : Quiet execution execution where
  raising := List.Subset.refl _
  cleared := List.Subset.refl _
  returned := List.Subset.refl _
  kept := List.Subset.refl _
  tripped := rfl
  lastChange := rfl

theorem mem_put {execution : Execution} {index : Nat} {operation : Operation} {watchdog : Watchdog}
    {f : Operation → Option Int} {t : Int}
    (h : t ∈ (execution.put index operation watchdog).operations.filterMap f) :
    t ∈ execution.operations.filterMap f ∨ f operation = some t := by
  obtain ⟨other, hother, hf⟩ := List.mem_filterMap.1 h
  rcases List.mem_or_eq_of_mem_set hother with hmem | rfl
  · exact .inl (List.mem_filterMap.2 ⟨other, hmem, hf⟩)
  · exact .inr hf

theorem subset_put {execution : Execution} {index : Nat} {operation operation' : Operation}
    {watchdog : Watchdog} {f : Operation → Option Int}
    (hget : execution.operations[index]? = some operation)
    (hf : f operation' = none ∨ f operation' = f operation) :
    (execution.put index operation' watchdog).operations.filterMap f ⊆
      execution.operations.filterMap f := by
  intro t ht
  rcases mem_put ht with hmem | hnew
  · exact hmem
  · rcases hf with hnone | hsame
    · exact absurd (hnone.symm.trans hnew) (Option.some_ne_none t).symm
    · exact List.mem_filterMap.2 ⟨operation, List.mem_of_getElem? hget, hsame ▸ hnew⟩

theorem cleared_subset_put {execution : Execution} {index : Nat} {operation operation' : Operation}
    {watchdog : Watchdog} (hget : execution.operations[index]? = some operation)
    (h : ∀ t, operation.cleared = some t → operation'.cleared = some t) :
    execution.cleared ⊆ (execution.put index operation' watchdog).cleared := by
  intro t ht
  obtain ⟨other, hother, hcleared⟩ := List.mem_filterMap.1 ht
  obtain ⟨i, hi⟩ := List.mem_iff_getElem?.1 hother
  apply List.mem_filterMap.2
  by_cases heq : i = index
  · rw [heq] at hi
    obtain rfl := Option.some.inj (hi.symm.trans hget)
    have hlt : index < execution.operations.length := (List.getElem?_eq_some_iff.1 hget).1
    exact ⟨operation', List.mem_set hlt operation', h t hcleared⟩
  · refine ⟨other, List.mem_iff_getElem?.2 ⟨i, ?_⟩, hcleared⟩
    rw [Execution.put, List.getElem?_set_ne (Ne.symm heq)]
    exact hi

theorem Adds.put {execution : Execution} {index : Nat} {operation operation' : Operation}
    {watchdog : Watchdog} (hget : execution.operations[index]? = some operation)
    (hraising : operation'.raising = none) (hcleared : operation'.cleared = operation.cleared)
    (hreturned : operation'.returned = none) :
    Adds execution (execution.put index operation' watchdog) where
  raising := subset_put hget (.inl hraising)
  cleared := subset_put hget (.inr hcleared)
  returned := subset_put hget (.inl hreturned)
  kept := cleared_subset_put hget fun _ ht => hcleared.trans ht

theorem subset_call {execution : Execution} {operation : Operation} {f : Operation → Option Int}
    (hf : f operation = none) :
    (execution.call operation).operations.filterMap f ⊆ execution.operations.filterMap f := by
  rw [Execution.call, List.filterMap_append, List.filterMap_cons_none hf, List.filterMap_nil,
    List.append_nil]
  exact List.Subset.refl _

theorem Quiet.call {execution : Execution} {operation : Operation} (hraising : operation.raising = none)
    (hcleared : operation.cleared = none) (hreturned : operation.returned = none) :
    Quiet execution (execution.call operation) where
  raising := subset_call hraising
  cleared := subset_call hcleared
  returned := subset_call hreturned
  kept := by
    rw [Execution.cleared, Execution.cleared, Execution.call, List.filterMap_append]
    exact List.subset_append_left _ _
  tripped := rfl
  lastChange := rfl

theorem Quiet.put {execution : Execution} {index : Nat} {operation operation' : Operation}
    {watchdog : Watchdog} (hget : execution.operations[index]? = some operation)
    (hraising : operation'.raising = none) (hcleared : operation'.cleared = operation.cleared)
    (hreturned : operation'.returned = none) (htripped : watchdog.tripped = execution.watchdog.tripped)
    (hlastChange : watchdog.lastChangeTimeNs = execution.watchdog.lastChangeTimeNs) :
    Quiet execution (execution.put index operation' watchdog) where
  toAdds := .put hget hraising hcleared hreturned
  tripped := htripped
  lastChange := hlastChange

section Steps
variable {execution : Execution} {index : Nat}

theorem advanceStart_cases {stage : StartStage} (hget : execution.operations[index]? = some (.start stage))
    (heartbeat : BitVec 64) :
    Quiet execution (execution.advanceStart index heartbeat stage) ∨
      Touches execution index (.start stage) (execution.advanceStart index heartbeat stage) := by
  cases stage with
  | exchange =>
      left
      rw [advanceStart]
      split_ifs
      · exact .put hget rfl rfl rfl rfl rfl
      · exact .put hget rfl rfl rfl rfl rfl
  | readCounter | storeCounter counter | readTime => exact .inl (.put hget rfl rfl rfl rfl rfl)
  | storeTime now => exact .inr (.startStores now)
  | clear => exact .inr .startClears
  | spawn =>
      left
      have hreturned : Quiet execution
          (execution.put index (.start (.returned (.ok ()))) execution.watchdog) :=
        .put hget rfl rfl rfl rfl rfl
      have hspawned : Quiet (execution.put index (.start (.returned (.ok ()))) execution.watchdog)
          (Execution.call _ (.runLoop (execution.thread + 1) .sleep)) := .call rfl rfl rfl
      exact ⟨⟨List.Subset.trans hspawned.raising hreturned.raising,
        List.Subset.trans hspawned.cleared hreturned.cleared,
        List.Subset.trans hspawned.returned hreturned.returned,
        List.Subset.trans hreturned.kept hspawned.kept⟩, rfl, rfl⟩
  | returned result => exact .inl (.refl execution)

theorem quiet_advanceStop {stage : StopStage} (hget : execution.operations[index]? = some (.stop stage)) :
    Quiet execution (execution.advanceStop index stage) := by
  cases stage with
  | exchange =>
      rw [advanceStop]
      split_ifs
      · exact .put hget rfl rfl rfl rfl rfl
      · exact .put hget rfl rfl rfl rfl rfl
  | requestStop =>
      have hjoin : Quiet execution (execution.put index (.stop .join) execution.watchdog) :=
        .put hget rfl rfl rfl rfl rfl
      exact ⟨⟨hjoin.raising, hjoin.cleared, hjoin.returned, hjoin.kept⟩, rfl, rfl⟩
  | join =>
      rw [advanceStop]
      split_ifs
      · exact .refl execution
      · exact .put hget rfl rfl rfl rfl rfl
  | returned result => exact .refl execution

theorem advanceReset_cases {began : Int} {stage : ResetStage}
    (hget : execution.operations[index]? = some (.reset began stage)) (heartbeat : BitVec 64) :
    Quiet execution (execution.advanceReset index heartbeat began stage) ∨
      Touches execution index (.reset began stage)
        (execution.advanceReset index heartbeat began stage) := by
  cases stage with
  | clear => exact .inr (.resetClears began)
  | readCounter | storeCounter counter | readTime => exact .inl (.put hget rfl rfl rfl rfl rfl)
  | storeTime now => exact .inr (.resetStores began now)
  | returned => exact .inl (.refl execution)

theorem advancePoll_cases {thread : Nat} {stage : PollStage}
    (hget : execution.operations[index]? = some (.runLoop thread stage)) (heartbeat : BitVec 64) :
    Quiet execution (execution.advancePoll index heartbeat thread stage) ∨
      Touches execution index (.runLoop thread stage)
        (execution.advancePoll index heartbeat thread stage) := by
  cases stage with
  | sleep =>
      left
      rw [advancePoll]
      split_ifs
      · exact .put hget rfl rfl rfl rfl rfl
      · exact .put hget rfl rfl rfl rfl rfl
  | readCounter | loadCounter current | storeCounter current now =>
      exact .inl (.put hget rfl rfl rfl rfl rfl)
  | readTime current previous =>
      left
      rw [advancePoll]
      split_ifs
      · exact .put hget rfl rfl rfl rfl rfl
      · exact .put hget rfl rfl rfl rfl rfl
  | storeTime now => exact .inr (.pollStores thread now)
  | loadTime current previous now =>
      rw [advancePoll]
      split_ifs with hle
      · exact .inr (.pollLoads thread current previous now hle)
      · exact .inl (.put hget rfl rfl rfl rfl rfl)
  | raise current previous now lastChange =>
      exact .inr (.pollRaises thread current previous now lastChange)
  | exited => exact .inl (.refl execution)

end Steps

/-- A move is quiet, or a step that touches something. -/
theorem next_cases (execution : Execution) (move : Move) :
    Quiet execution (execution.next move) ∨
      ∃ index heartbeat operation, move = .step index heartbeat ∧
        execution.operations[index]? = some operation ∧
        Touches execution index operation (execution.next move) := by
  cases move with
  | callStart | callStop | callReset => exact .inl (.call rfl rfl rfl)
  | tick elapsed =>
      exact .inl ⟨⟨List.Subset.refl _, List.Subset.refl _, List.Subset.refl _, List.Subset.refl _⟩, rfl,
        rfl⟩
  | step index heartbeat =>
      rw [Execution.next]
      cases hget : execution.operations[index]? with
      | none => exact .inl (.refl execution)
      | some operation =>
          dsimp only
          have hcases : Quiet execution (execution.advance index heartbeat operation) ∨
              Touches execution index operation (execution.advance index heartbeat operation) := by
            cases operation with
            | start stage => exact advanceStart_cases hget heartbeat
            | stop stage => exact .inl (quiet_advanceStop hget)
            | reset began stage => exact advanceReset_cases hget heartbeat
            | runLoop thread stage => exact advancePoll_cases hget heartbeat
          rcases hcases with hquiet | htouches
          · exact .inl hquiet
          · exact .inr ⟨index, heartbeat, operation, rfl, hget, htouches⟩

theorem cleared_subset_next (execution : Execution) (move : Move) :
    execution.cleared ⊆ (execution.next move).cleared := by
  rcases execution.next_cases move with hquiet | ⟨index, heartbeat, operation, rfl, hget, htouches⟩
  · exact hquiet.kept
  · generalize execution.next (.step index heartbeat) = execution' at htouches ⊢
    cases htouches with
    | resetClears began => exact cleared_subset_put hget fun t ht => absurd ht (Option.some_ne_none t).symm
    | startClears | startStores now | resetStores began now | pollStores thread now
      | pollLoads thread current previous now hle | pollRaises thread current previous now lastChange =>
        exact cleared_subset_put hget fun t ht => ht

/-! ### Undisturbed runs -/

/-- The step of an operation that neither clears a raised latch for a start nor mixes the times of a reset
with those of the operations around it. -/
def Permits (execution : Execution) : Operation → Prop
  | .start .clear => execution.watchdog.tripped = false
  | .start (.storeTime now) => ∀ t ∈ execution.returned, t ≤ now
  | .reset _ (.storeTime now) => ∀ t ∈ execution.returned, t ≤ now
  | .runLoop _ (.storeTime now) => ∀ t ∈ execution.returned, t ≤ now
  | .runLoop _ (.loadTime _ _ now) =>
      now - execution.watchdog.lastChangeTimeNs ≥ execution.watchdog.timeout →
        ∀ t ∈ execution.underWay, t ≤ execution.watchdog.lastChangeTimeNs
  | .reset began .clear => ∀ lastChange ∈ execution.raising, began ≤ lastChange
  | _ => True

/-- No `start` clears a latch that is up; no operation stores a time that it read before a reset began
which has returned since; and no poll raises the latch on a time from before a reset that was under way
when the poll loaded it, or that cleared the latch afterwards. -/
def Undisturbed (execution : Execution) : Move → Prop
  | .step index _ =>
      match execution.operations[index]? with
      | none => True
      | some operation => execution.Permits operation
  | _ => True

/-- No time from before a reset that has cleared the latch is about to raise it, or to be counted from
once the reset has returned. -/
structure Clean (execution : Execution) : Prop where
  baseline : ∀ t ∈ execution.returned, t ≤ execution.watchdog.lastChangeTimeNs
  raising : ∀ t ∈ execution.cleared, ∀ lastChange ∈ execution.raising, t ≤ lastChange

theorem Clean.of_adds {execution execution' : Execution} (h : execution.Clean)
    (hadds : Adds execution execution')
    (htime : ∀ t ∈ execution.returned, t ≤ execution'.watchdog.lastChangeTimeNs) : execution'.Clean where
  baseline t ht := htime t (hadds.returned ht)
  raising t ht lastChange hlast := h.raising t (hadds.cleared ht) lastChange (hadds.raising hlast)

theorem mem_returned_or_underWay {execution : Execution} {t : Int} (h : t ∈ execution.cleared) :
    t ∈ execution.returned ∨ t ∈ execution.underWay := by
  obtain ⟨operation, hmem, hcleared⟩ := List.mem_filterMap.1 h
  rcases Operation.returned_or_underWay_of_cleared hcleared with hreturned | hunderWay
  · exact .inl (List.mem_filterMap.2 ⟨operation, hmem, hreturned⟩)
  · exact .inr (List.mem_filterMap.2 ⟨operation, hmem, hunderWay⟩)

/-- A step that the operations around it permit. -/
theorem Clean.touches {execution execution' : Execution} (h : execution.Clean) (hsound : execution.Sound)
    {index : Nat} {operation : Operation} (hget : execution.operations[index]? = some operation)
    (hpermits : execution.Permits operation) (htouches : Touches execution index operation execution') :
    execution'.Clean := by
  have hoperation := hsound operation (List.mem_of_getElem? hget)
  cases htouches with
  | startClears => exact h.of_adds (.put hget rfl rfl rfl) h.baseline
  | startStores now => exact h.of_adds (.put hget rfl rfl rfl) hpermits
  | pollStores thread now => exact h.of_adds (.put hget rfl rfl rfl) hpermits
  | pollRaises thread current previous now lastChange =>
      exact h.of_adds (.put hget rfl rfl rfl) h.baseline
  | resetClears began =>
      refine ⟨fun t ht => h.baseline t (subset_put hget (.inl rfl) ht), fun t ht lastChange hlast => ?_⟩
      have hraising := subset_put hget (.inl rfl) hlast
      rcases mem_put ht with hcleared | hnew
      · exact h.raising t hcleared lastChange hraising
      · obtain rfl := Option.some.inj hnew
        exact hpermits lastChange hraising
  | resetStores began now =>
      refine ⟨fun t ht => ?_, fun t ht lastChange hlast => ?_⟩
      · rcases mem_put ht with hreturned | hnew
        · exact hpermits t hreturned
        · obtain rfl := Option.some.inj hnew
          exact hoperation.2
      · have hcleared : (execution.put index (.reset began .returned)
            { execution.watchdog with lastChangeTimeNs := now }).cleared ⊆ execution.cleared :=
          subset_put hget (.inr rfl)
        exact h.raising t (hcleared ht) lastChange (subset_put hget (.inl rfl) hlast)
  | pollLoads thread current previous now hle =>
      refine ⟨fun t ht => h.baseline t (subset_put hget (.inl rfl) ht), fun t ht lastChange hlast => ?_⟩
      have hcleared := subset_put hget (.inl rfl) ht
      rcases mem_put hlast with hraising | hnew
      · exact h.raising t hcleared lastChange hraising
      · obtain rfl := Option.some.inj hnew
        rcases mem_returned_or_underWay hcleared with hreturned | hunderWay
        · exact h.baseline t hreturned
        · exact hpermits hle t hunderWay

theorem Clean.next {execution : Execution} (h : execution.Clean) (hsound : execution.Sound) {move : Move}
    (hmove : execution.Undisturbed move) : (execution.next move).Clean := by
  rcases execution.next_cases move with hquiet | ⟨index, heartbeat, operation, rfl, hget, htouches⟩
  · exact h.of_adds hquiet.toAdds fun t ht => hquiet.lastChange ▸ h.baseline t ht
  · rw [Undisturbed, hget] at hmove
    exact h.touches hsound hget hmove htouches

/-! ### The latch -/

/-- A move that lowers the latch is the first step of a reset. -/
def LoweredByReset (execution : Execution) (move : Move) : Prop :=
  execution.watchdog.tripped = true → (execution.next move).watchdog.tripped = false →
    ∃ index heartbeat began, move = .step index heartbeat ∧
      execution.operations[index]? = some (.reset began .clear)

/-- A poll raises the latch that has observed the counter unchanged for the timeout, counted from a time
not before `began`. -/
def RaisedSince (began : Int) (execution : Execution) (move : Move) : Prop :=
  ∃ index heartbeat thread current previous now lastChange, move = .step index heartbeat ∧
    execution.operations[index]? = some (.runLoop thread (.raise current previous now lastChange)) ∧
    current = previous ∧ execution.watchdog.timeout ≤ now - lastChange ∧ began ≤ lastChange

/-- Once a reset has cleared the latch, it stays down until a poll raises it that counts from a time not
before the reset began. -/
def StaysDown (start : Execution) (moves : List Move) : Prop :=
  ∀ before index heartbeat began later, moves = before ++ .step index heartbeat :: later →
    (run next start before).operations[index]? = some (.reset began .clear) →
    (run next start moves).watchdog.tripped = true →
    ∃ between move after, later = between ++ move :: after ∧
      RaisedSince began (run next start (before ++ .step index heartbeat :: between)) move

theorem loweredByReset_of_undisturbed {execution : Execution} {move : Move}
    (hmove : execution.Undisturbed move) : LoweredByReset execution move := by
  intro htripped hlowered
  rcases execution.next_cases move with hquiet | ⟨index, heartbeat, operation, rfl, hget, htouches⟩
  · exact absurd (hquiet.tripped.symm.trans hlowered) (by rw [htripped]; decide)
  · rw [Undisturbed, hget] at hmove
    generalize execution.next (.step index heartbeat) = execution' at htouches hlowered
    cases htouches with
    | startClears => exact absurd (htripped.symm.trans hmove) (by decide)
    | resetClears began => exact ⟨index, heartbeat, began, rfl, hget⟩
    | pollRaises thread current previous now lastChange => exact absurd hlowered.symm Bool.false_ne_true
    | startStores now | resetStores began now | pollStores thread now
      | pollLoads thread current previous now hle => exact absurd (htripped.symm.trans hlowered) (by decide)

theorem raisedSince_of_clean {execution : Execution} (hsound : execution.Sound) (hclean : execution.Clean)
    {move : Move} (hdown : execution.watchdog.tripped ≠ true)
    (hraised : (execution.next move).watchdog.tripped = true) {began : Int} (hbegan : began ∈ execution.cleared) :
    RaisedSince began execution move := by
  rcases execution.next_cases move with hquiet | ⟨index, heartbeat, operation, rfl, hget, htouches⟩
  · exact absurd (hquiet.tripped.symm.trans hraised) hdown
  · generalize execution.next (.step index heartbeat) = execution' at htouches hraised
    have hoperation := hsound operation (List.mem_of_getElem? hget)
    cases htouches with
    | startClears | resetClears began => exact absurd hraised Bool.false_ne_true
    | pollRaises thread current previous now lastChange =>
        have hraising : lastChange ∈ execution.raising :=
          List.mem_filterMap.2 ⟨_, List.mem_of_getElem? hget, rfl⟩
        exact ⟨index, heartbeat, thread, current, previous, now, lastChange, rfl, hget, hoperation.1,
          hoperation.2, hclean.raising began hbegan lastChange hraising⟩
    | startStores now | resetStores began now | pollStores thread now
      | pollLoads thread current previous now hle => exact absurd hraised hdown

theorem sound_and_clean_along {start : Execution} (hsound : start.Sound) (hclean : start.Clean)
    {moves : List Move} (h : Along next Undisturbed start moves) :
    Along next (fun execution _ => execution.Sound ∧ execution.Clean) start moves :=
  Along.of_invariant (I := fun execution => execution.Sound ∧ execution.Clean)
    (fun _ move hinv hmove => ⟨⟨hinv.1.next move, hinv.2.next hinv.1 hmove⟩, hinv⟩) ⟨hsound, hclean⟩ h

theorem staysDown_of_undisturbed {start : Execution} (hsound : start.Sound) (hclean : start.Clean)
    {moves : List Move} (h : Along next Undisturbed start moves) : StaysDown start moves := by
  rintro before index heartbeat began later rfl hget hup
  have hinv := sound_and_clean_along hsound hclean h
  rw [run_concat, run_cons] at hup
  have hclears : (run next start before).next (.step index heartbeat) =
      (run next start before).put index (.reset began .readCounter)
        { (run next start before).watchdog with tripped := false } := by
    rw [next, hget]
    rfl
  have hdown : ¬((run next start before).next (.step index heartbeat)).watchdog.tripped = true := by
    rw [hclears]
    exact Bool.false_ne_true
  obtain ⟨between, move, after, rfl, hbetween, hraised⟩ :=
    exists_item_of_run (p := fun execution : Execution => execution.watchdog.tripped = true) hdown hup
  have hstate : run next start (before ++ .step index heartbeat :: between) =
      run next ((run next start before).next (.step index heartbeat)) between := by
    rw [run_concat, run_cons]
  have hcleared : began ∈ (run next start (before ++ .step index heartbeat :: between)).cleared := by
    rw [hstate]
    refine run_invariant (I := fun execution => began ∈ execution.cleared)
      (fun execution move hmem => cleared_subset_next execution move hmem) ?_ between
    rw [hclears]
    exact List.mem_filterMap.2 ⟨_, List.mem_set (List.getElem?_eq_some_iff.1 hget).1 _, rfl⟩
  rw [← List.cons_append, ← List.append_assoc] at hinv
  obtain ⟨hsoundBefore, hcleanBefore⟩ := hinv.of_split
  rw [← hstate] at hbetween hraised
  exact ⟨between, move, after, rfl, raisedSince_of_clean hsoundBefore hcleanBefore hbetween hraised hcleared⟩

/-- In an undisturbed run the latch is lowered only by resets, and a reset is clean. -/
theorem latch_of_undisturbed (timeout clock : Int) (moves : List Move)
    (h : Along next Undisturbed (create timeout clock) moves) :
    Along next LoweredByReset (create timeout clock) moves ∧ StaysDown (create timeout clock) moves := by
  have hsound : (create timeout clock).Sound := fun operation hmem => absurd hmem List.not_mem_nil
  have hclean : (create timeout clock).Clean :=
    ⟨fun t ht => absurd ht List.not_mem_nil, fun t ht => absurd ht List.not_mem_nil⟩
  constructor
  · exact Along.of_invariant (I := fun _ => True)
      (fun _ _ _ hmove => ⟨trivial, loweredByReset_of_undisturbed hmove⟩) trivial h
  · exact staysDown_of_undisturbed hsound hclean h

instance (execution : Execution) : DecidablePred execution.Permits := fun operation =>
  match operation with
  | .start .clear => inferInstanceAs (Decidable (_ = _))
  | .start (.storeTime _) | .reset _ (.storeTime _) | .runLoop _ (.storeTime _)
  | .reset _ .clear => inferInstanceAs (Decidable (∀ _ ∈ _, _))
  | .runLoop _ (.loadTime _ _ _) => inferInstanceAs (Decidable (_ → _))
  | .start .exchange | .start .readCounter | .start (.storeCounter _) | .start .readTime | .start .spawn
  | .start (.returned _) | .stop _ | .reset _ .readCounter | .reset _ (.storeCounter _)
  | .reset _ .readTime | .reset _ .returned | .runLoop _ .sleep | .runLoop _ .readCounter
  | .runLoop _ (.loadCounter _) | .runLoop _ (.readTime _ _) | .runLoop _ (.storeCounter _ _)
  | .runLoop _ (.raise _ _ _ _) | .runLoop _ .exited => inferInstanceAs (Decidable True)

instance (execution : Execution) (move : Move) : Decidable (execution.Undisturbed move) :=
  match move with
  | .step index _ =>
      match h : execution.operations[index]? with
      | none => isTrue (by rw [Undisturbed, h]; trivial)
      | some operation => decidable_of_iff (execution.Permits operation) (by rw [Undisturbed, h])
  | .callStart | .callStop | .callReset | .tick _ => isTrue trivial

/-- A watchdog is started, and its thread polls it once after the timeout: the latch is up. -/
def tripMoves : List Move :=
  .callStart :: List.replicate 7 (.step 0 0) ++ .tick 20 :: List.replicate 6 (.step 1 0)

/-- The rest of a reset that has cleared, and then a poll that raises the latch. -/
def overtaken : List Move := List.replicate 4 (.step 2 0) ++ [.step 1 0]

theorem latch_of_undisturbed_reset :
    Along next LoweredByReset (create 20 0)
        (tripMoves ++ .callReset :: List.replicate 5 (.step 2 0) ++ List.replicate 6 (.step 1 0)) ∧
      StaysDown (create 20 0)
        (tripMoves ++ .callReset :: List.replicate 5 (.step 2 0) ++ List.replicate 6 (.step 1 0)) :=
  latch_of_undisturbed _ _ _ (by decide)

/-- After a trip, `stop` and `start` lower the latch; and a poll that loaded the time of the last change
before a reset raises the latch again as soon as the reset has returned. -/
theorem not_latch :
    (¬∀ timeout clock moves, 0 < timeout → Along next LoweredByReset (create timeout clock) moves) ∧
      ¬∀ timeout clock moves, 0 < timeout → StaysDown (create timeout clock) moves := by
  constructor
  · intro hall
    have hrun := hall 20 0 ((tripMoves ++ .callStop :: List.replicate 2 (.step 2 0) ++ .step 1 0 ::
      .step 2 0 :: .callStart :: List.replicate 5 (.step 3 0)) ++ .step 3 0 :: []) (by decide)
    obtain ⟨index, heartbeat, began, hmove, hget⟩ := hrun.of_split rfl rfl
    obtain ⟨rfl, -⟩ := Move.step.inj hmove
    have hstart : (run next (create 20 0) (tripMoves ++ .callStop :: List.replicate 2 (.step 2 0) ++
        .step 1 0 :: .step 2 0 :: .callStart :: List.replicate 5 (.step 3 0))).operations[3]? =
          some (.start .clear) := rfl
    exact absurd (hstart.symm.trans hget) (by simp)
  · intro hall
    obtain ⟨between, move, after, hlater, index, heartbeat, thread, current, previous, now, lastChange, -,
      hget, -, -, hbegan⟩ := hall 20 0 (tripMoves.take 14 ++ .callReset :: .step 2 0 :: overtaken)
        (by decide) (tripMoves.take 14 ++ [.callReset]) 2 0 20 overtaken rfl rfl rfl
    have hstale : ∀ k < 5, ∀ t ∈ (run next (create 20 0)
        ((tripMoves.take 14 ++ [.callReset]) ++ .step 2 0 :: overtaken.take k)).raising, t = 0 := by
      decide
    have hlt : between.length < 5 := by
      have hlength := congrArg List.length hlater
      rw [List.length_append, List.length_cons] at hlength
      have hfive : overtaken.length = 5 := rfl
      omega
    have hzero : lastChange = 0 := by
      apply hstale between.length hlt
      rw [hlater, List.take_left]
      exact List.mem_filterMap.2 ⟨_, List.mem_of_getElem? hget, rfl⟩
    rw [hzero] at hbegan
    exact absurd hbegan (by decide)

end Execution
end Watchdog
end RobotEmu
