import RobotEmu.Pacing
import RobotEmu.ServerDispatcher

/-! The two loops that pace the control steps: `ControlLoop::runLoop`, and the loop that the server's
control thread runs in its place. Each is a recurrence on time stamps; what the scheduler, the lock and the
work itself cost in a cycle is given. -/

namespace RobotEmu

open Pacing

inductive ControlLoopFrequency where
  | hz500
  | hz1000
  | hz2000
  | hz5000
  | hz10000
  deriving DecidableEq, Repr

def ControlLoopFrequency.hz : ControlLoopFrequency → Nat
  | hz500 => 500
  | hz1000 => 1000
  | hz2000 => 2000
  | hz5000 => 5000
  | hz10000 => 10000

/-- In nanoseconds; exact for every frequency. -/
def periodFor (frequency : ControlLoopFrequency) : Nat := 1000000000 / frequency.hz

theorem periodFor_pos (frequency : ControlLoopFrequency) : 0 < periodFor frequency := by
  cases frequency <;> decide

theorem period_hz1000 : ControlLoop.hz1000.period = periodFor .hz1000 := rfl

/-- What one cycle takes, in nanoseconds: `step()`, the bookkeeping up to the look at the next deadline, and
what passes between the earliest moment the loop may go on and the start of the next cycle. For the control
thread that is its call of `step()`, after oversleep and a wait for the lock; for `runLoop` it is the reading
of `cycleStart`, and no time is taken to pass between that reading and `step()`. -/
structure Delays where
  work : Nat
  bookkeeping : Nat
  late : Nat

/-! ### `runLoop` -/

/-- `runLoop` at the start of a cycle, with the metrics it keeps. -/
structure RunLoop where
  cycleStart : Int
  previousCycleStart : Int
  firstCycle : Bool
  threadedCycleCount : Nat
  totalThreadedCycleTimeNs : Int
  maxJitterNs : Int
  deadlineMisses : Nat

namespace RunLoop

def begin (now : Int) (wait : Nat) : RunLoop where
  cycleStart := now + wait
  previousCycleStart := now
  firstCycle := true
  threadedCycleCount := 0
  totalThreadedCycleTimeNs := 0
  maxJitterNs := 0
  deadlineMisses := 0

/-- One cycle, up to the reading of `cycleStart` in the next. -/
def cycle (period : Nat) (loop : RunLoop) (delays : Delays) : RunLoop :=
  let actualPeriod := loop.cycleStart - loop.previousCycleStart
  let deviation := if actualPeriod > period then actualPeriod - period else period - actualPeriod
  let nextDeadline := loop.cycleStart + period
  let now := loop.cycleStart + delays.work + delays.bookkeeping
  let noSlack := now ≥ nextDeadline
  { cycleStart := (if noSlack then now else nextDeadline) + delays.late
    previousCycleStart := loop.cycleStart
    firstCycle := false
    threadedCycleCount := loop.threadedCycleCount + 1
    totalThreadedCycleTimeNs := loop.totalThreadedCycleTimeNs + delays.work
    maxJitterNs := if loop.firstCycle then loop.maxJitterNs else max loop.maxJitterNs deviation
    deadlineMisses := if noSlack then loop.deadlineMisses + 1 else loop.deadlineMisses }

/-- The loop after `k` cycles. -/
def after (period : Nat) (now : Int) (wait : Nat) (delays : Nat → Delays) : Nat → RunLoop
  | 0 => begin now wait
  | k + 1 => cycle period (after period now wait delays k) (delays k)

/-- `sleep_until` and the skipped sleep alike put the next cycle after the deadline. -/
theorem cycleStart_add_le (period : Nat) (loop : RunLoop) (delays : Delays) :
    loop.cycleStart + period ≤ (loop.cycle period delays).cycleStart := by
  unfold cycle
  dsimp only
  split_ifs with hslack <;> omega

theorem spaced_after (period : Nat) (now : Int) (wait : Nat) (delays : Nat → Delays) :
    Spaced period fun k => (after period now wait delays k).cycleStart :=
  fun _ => cycleStart_add_le period _ _

/-- The deadlines missed are those of the cycles whose own work takes the whole period. -/
theorem deadlineMisses_after (period : Nat) (now : Int) (wait : Nat) (delays : Nat → Delays) (k : Nat) :
    (after period now wait delays k).deadlineMisses =
      (List.range k).countP fun i => period ≤ (delays i).work + (delays i).bookkeeping := by
  induction k with
  | zero => rfl
  | succ k ih =>
      rw [after, List.range_succ, List.countP_append, ← ih]
      unfold cycle
      dsimp only
      have hmiss : (after period now wait delays k).cycleStart + (delays k).work + (delays k).bookkeeping ≥
          (after period now wait delays k).cycleStart + period ↔
            period ≤ (delays k).work + (delays k).bookkeeping := by omega
      by_cases hle : period ≤ (delays k).work + (delays k).bookkeeping
      · rw [if_pos (hmiss.2 hle), List.countP_cons_of_pos (by simpa using hle), List.countP_nil]
      · rw [if_neg (mt hmiss.1 hle), List.countP_cons_of_neg (by simpa using hle), List.countP_nil,
          Nat.add_zero]

end RunLoop

/-! ### The control thread of the server -/

/-- The control thread when it calls `step()`: the moment of the call, and `next`. -/
structure ControlThread where
  next : Int
  stepStart : Int

namespace ControlThread

def begin (now : Int) (wait : Nat) : ControlThread := ⟨now, now + wait⟩

/-- One cycle, up to the next `step()`; `sleep_until` returns at once when `next` has passed. -/
def cycle (period : Nat) (thread : ControlThread) (delays : Delays) : ControlThread :=
  let next := thread.next + period
  let now := thread.stepStart + delays.work + delays.bookkeeping
  ⟨next, max now next + delays.late⟩

def after (period : Nat) (now : Int) (wait : Nat) (delays : Nat → Delays) : Nat → ControlThread
  | 0 => begin now wait
  | k + 1 => cycle period (after period now wait delays k) (delays k)

/-- How far a step is behind its place in the schedule of one step a period: what the cycle before left
over, and the delay of the step's own start. -/
def behind (period wait : Nat) (delays : Nat → Delays) : Nat → Nat
  | 0 => wait
  | k + 1 => behind period wait delays k + (delays k).work + (delays k).bookkeeping - period + (delays k).late

theorem stepStart_after (period : Nat) (now : Int) (wait : Nat) (delays : Nat → Delays) (k : Nat) :
    (after period now wait delays k).stepStart =
      (after period now wait delays k).next + behind period wait delays k := by
  induction k with
  | zero => rfl
  | succ k ih =>
      unfold after cycle behind
      dsimp only
      rw [ih]
      omega

/-- Two steps keep the period between them exactly if the cycle takes it anyway or the second starts as far
behind its place as the first. -/
theorem gap_iff (period : Nat) (now : Int) (wait : Nat) (delays : Nat → Delays) (k : Nat) :
    (after period now wait delays k).stepStart + period ≤ (after period now wait delays (k + 1)).stepStart ↔
      behind period wait delays k ≤ (delays k).late ∨
        period ≤ (delays k).work + (delays k).bookkeeping + (delays k).late := by
  have hstart := stepStart_after period now wait delays k
  rw [show after period now wait delays (k + 1) = cycle period (after period now wait delays k) (delays k)
    from rfl]
  unfold cycle
  dsimp only
  rw [hstart]
  omega

end ControlThread

/-! ### The pace of the steps -/

/-- Steps that start at least a period apart, so that a window of time holds at most one more of them than
periods; the calls of `Robot::update` are among them. -/
structure WellPaced (period : Nat) (start : Nat → Int) : Prop where
  gap : ∀ k, start k + period ≤ start (k + 1)
  window : ∀ n opening length, (inWindow start n opening length).card ≤ length / period + 1

theorem wellPaced_iff {period : Nat} (hperiod : 0 < period) {start : Nat → Int} :
    WellPaced period start ↔ Spaced period start :=
  ⟨fun h => h.gap, fun h => ⟨h, h.card_inWindow_le hperiod⟩⟩

/-- `runLoop` keeps the pace whatever its cycles take. The control thread of the server keeps it exactly
when no cycle that takes less than the period is followed by a step less far behind than its own. -/
theorem wellPaced_controlThread_iff (frequency : ControlLoopFrequency) (now : Int) (wait : Nat)
    (delays : Nat → Delays) :
    WellPaced (periodFor frequency)
        (fun k => (RunLoop.after (periodFor frequency) now wait delays k).cycleStart) ∧
      (WellPaced (periodFor frequency)
          (fun k => (ControlThread.after (periodFor frequency) now wait delays k).stepStart) ↔
        ∀ k, ControlThread.behind (periodFor frequency) wait delays k ≤ (delays k).late ∨
          periodFor frequency ≤ (delays k).work + (delays k).bookkeeping + (delays k).late) := by
  have hperiod := periodFor_pos frequency
  constructor
  · rw [wellPaced_iff hperiod]
    exact RunLoop.spaced_after _ now wait delays
  · rw [wellPaced_iff hperiod]
    exact forall_congr' fun k => ControlThread.gap_iff _ now wait delays k

/-- A step that takes three and a half periods is followed by the steps that are due, back to back. -/
theorem not_wellPaced_controlThread :
    ¬∀ frequency now wait delays,
      WellPaced (periodFor frequency)
          (fun k => (RunLoop.after (periodFor frequency) now wait delays k).cycleStart) ∧
        WellPaced (periodFor frequency)
          (fun k => (ControlThread.after (periodFor frequency) now wait delays k).stepStart) := by
  intro hall
  have hgap := (hall .hz1000 0 0 fun k => ⟨if k = 0 then 3500000 else 0, 0, 0⟩).2.gap 1
  revert hgap
  decide

end RobotEmu
