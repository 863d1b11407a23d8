import RobotEmu.SafetyWatchdog
import RobotEmu.ServerRun

/-! The threads of the server: the control thread, the watchdog, the thread that answers its trip, and the loop that
serves requests, with the time that passes between their moves. The watchdog reads the heartbeat and the clock
one after the other, and the answer waits for the mutex; any thread may be held up anywhere. -/

namespace RobotEmu

open Machine

/-- How far the watchdog has got: in `start`, or in a round of `runLoop`. -/
inductive WatchStage where
  | starting
  | startCounted (counter : BitVec 64)
  | sleeping
  | counted (current : BitVec 64)
  | timed (current : BitVec 64) (now : Int)

structure ServerThreads where
  server : Server
  clock : Int
  watchdog : Watchdog
  stage : WatchStage
  alreadyTripped : Bool
  answering : Bool
  warnings : Nat

inductive ThreadsMove where
  | tick (elapsed : Nat)
  | control
  | request (frame : Frame)
  | watch
  | respond

namespace ServerThreads

/-- `main` before it starts the watchdog, which trips after a tenth of a second. -/
def boot (server : Server) (clock : Int) : ServerThreads where
  server := server
  clock := clock
  watchdog := { timeout := 100000000 }
  stage := .starting
  alreadyTripped := false
  answering := false
  warnings := 0

/-- What the watchdog does next. -/
def watch (threads : ServerThreads) : ServerThreads :=
  match threads.stage with
  | .starting => { threads with stage := .startCounted threads.server.controlLoop.cyclesExecuted }
  | .startCounted counter =>
      { threads with
        watchdog := (threads.watchdog.start ⟨threads.clock, counter⟩).2
        stage := .sleeping }
  | .sleeping => { threads with stage := .counted threads.server.controlLoop.cyclesExecuted }
  | .counted current => { threads with stage := .timed current threads.clock }
  | .timed current now =>
      { threads with
        watchdog := threads.watchdog.poll ⟨now, current⟩
        stage := .sleeping }

/-- What the response thread does next: a look at the trip, or `estop.trigger()` under the mutex. -/
def respond (threads : ServerThreads) : ServerThreads :=
  if threads.answering then
    { threads with
      server := threads.server.trigger
      answering := false
      warnings := threads.warnings + 1 }
  else if threads.watchdog.tripped && !threads.alreadyTripped then
    { threads with
      alreadyTripped := true
      answering := true }
  else threads

def next (threads : ServerThreads) : ThreadsMove → ServerThreads
  | .tick elapsed => { threads with clock := threads.clock + elapsed }
  | .control => { threads with server := threads.server.step }
  | .request frame => { threads with server := (threads.server.dispatch frame).1 }
  | .watch => threads.watch
  | .respond => threads.respond

/-- What a move is to the server. -/
def means (threads : ServerThreads) : ThreadsMove → List Item
  | .control => [.control]
  | .request frame => [.request frame]
  | .respond => if threads.answering then [.watchdog] else []
  | .tick _ | .watch => []

theorem server_watch (threads : ServerThreads) : threads.watch.server = threads.server := by
  unfold watch
  cases threads.stage <;> rfl

theorem server_respond (threads : ServerThreads) :
    threads.respond.server = if threads.answering then threads.server.trigger else threads.server := by
  unfold respond
  split_ifs <;> rfl

/-- The response thread does not touch the clock or the watchdog. -/
theorem respond_frame (threads : ServerThreads) :
    threads.respond.clock = threads.clock ∧ threads.respond.watchdog = threads.watchdog ∧
      threads.respond.stage = threads.stage := by
  unfold respond
  split_ifs <;> exact ⟨rfl, rfl, rfl⟩

theorem server_next (threads : ServerThreads) (move : ThreadsMove) :
    (threads.next move).server = Machine.run Server.next threads.server (threads.means move) := by
  cases move with
  | tick elapsed => rfl
  | control => rfl
  | request frame => rfl
  | watch => exact threads.server_watch
  | respond =>
      rw [next, server_respond, means]
      split_ifs <;> rfl

/-- To the server, the threads are a run of items. -/
theorem server_run (threads : ServerThreads) (moves : List ThreadsMove) :
    (Machine.run next threads moves).server =
      Machine.run Server.next threads.server (translated next means threads moves) := by
  have hstep : ∀ (threads : ServerThreads) (server : Server) (move : ThreadsMove), threads.server = server →
      (threads.next move).server = Machine.run Server.next server (threads.means move) := by
    rintro threads _ move rfl
    exact threads.server_next move
  exact simulates_run (R := fun (threads : ServerThreads) server => threads.server = server) hstep rfl moves

/-- The watchdog's `start` has returned. -/
def Started (threads : ServerThreads) : Prop :=
  match threads.stage with
  | .starting | .startCounted _ => False
  | .sleeping | .counted _ | .timed _ _ => True

instance : (threads : ServerThreads) → Decidable threads.Started
  | ⟨_, _, _, .starting, _, _, _⟩ | ⟨_, _, _, .startCounted _, _, _, _⟩ => inferInstanceAs (Decidable False)
  | ⟨_, _, _, .sleeping, _, _, _⟩ | ⟨_, _, _, .counted _, _, _, _⟩ | ⟨_, _, _, .timed _ _, _, _, _⟩ =>
      inferInstanceAs (Decidable True)

/-- What the response thread goes by. -/
structure Answered (threads : ServerThreads) : Prop where
  timeout : threads.watchdog.timeout = 100000000
  unstarted : ¬threads.Started → threads.watchdog.running = false ∧ threads.watchdog.tripped = false
  tripped : threads.alreadyTripped = true → threads.watchdog.tripped = true
  warnings : threads.warnings + (if threads.answering then 1 else 0) = if threads.alreadyTripped then 1 else 0

theorem answered_boot (server : Server) (clock : Int) : (boot server clock).Answered where
  timeout := rfl
  unstarted _ := ⟨rfl, rfl⟩
  tripped h := absurd h Bool.false_ne_true
  warnings := rfl

theorem tripped_poll_of_tripped {watchdog : Watchdog} (h : watchdog.tripped = true) (observed : Observation) :
    (watchdog.poll observed).tripped = true := by
  unfold Watchdog.poll
  split_ifs
  · exact h
  · rfl
  · exact h

theorem timeout_poll (watchdog : Watchdog) (observed : Observation) :
    (watchdog.poll observed).timeout = watchdog.timeout := by
  unfold Watchdog.poll
  split_ifs <;> rfl

theorem Answered.watch {threads : ServerThreads} (h : threads.Answered) : threads.watch.Answered := by
  obtain ⟨server, clock, watchdog, stage, alreadyTripped, answering, warnings⟩ := threads
  obtain ⟨htimeout, hunstarted, htripped, hwarnings⟩ := h
  cases stage with
  | starting => exact ⟨htimeout, fun _ => hunstarted id, htripped, hwarnings⟩
  | startCounted counter =>
      obtain ⟨hrunning, hclear⟩ := hunstarted id
      have hstart : (watchdog.start ⟨clock, counter⟩).2.timeout = watchdog.timeout := by
        rw [Watchdog.start]
        split_ifs <;> rfl
      refine ⟨hstart.trans htimeout, fun hnot => absurd trivial hnot, fun halready => ?_, hwarnings⟩
      exact absurd (htripped halready) (by simpa using hclear)
  | sleeping => exact ⟨htimeout, fun hnot => absurd trivial hnot, htripped, hwarnings⟩
  | counted current => exact ⟨htimeout, fun hnot => absurd trivial hnot, htripped, hwarnings⟩
  | timed current now =>
      exact ⟨(timeout_poll _ _).trans htimeout, fun hnot => absurd trivial hnot,
        fun halready => tripped_poll_of_tripped (htripped halready) _, hwarnings⟩

theorem Answered.respond {threads : ServerThreads} (h : threads.Answered) : threads.respond.Answered := by
  obtain ⟨server, clock, watchdog, stage, alreadyTripped, answering, warnings⟩ := threads
  obtain ⟨htimeout, hunstarted, htripped, hwarnings⟩ := h
  unfold ServerThreads.respond
  cases answering with
  | true => exact ⟨htimeout, hunstarted, htripped, hwarnings⟩
  | false =>
      rw [if_neg Bool.false_ne_true]
      split_ifs with hlook
      · rw [Bool.and_eq_true, Bool.not_eq_true'] at hlook
        obtain ⟨htrip, rfl⟩ := hlook
        refine ⟨htimeout, hunstarted, fun _ => htrip, ?_⟩
        have hnone : warnings = 0 := hwarnings
        rw [hnone]
        rfl
      · exact ⟨htimeout, hunstarted, htripped, hwarnings⟩

theorem Answered.next {threads : ServerThreads} (h : threads.Answered) (move : ThreadsMove) :
    (threads.next move).Answered := by
  cases move with
  | tick elapsed => exact ⟨h.timeout, h.unstarted, h.tripped, h.warnings⟩
  | control => exact ⟨h.timeout, h.unstarted, h.tripped, h.warnings⟩
  | request frame => exact ⟨h.timeout, h.unstarted, h.tripped, h.warnings⟩
  | watch => exact h.watch
  | respond => exact h.respond

end ServerThreads

def Item.isWatchdog : Item → Bool
  | .watchdog => true
  | _ => false

namespace ServerThreads

theorem warnings_next (threads : ServerThreads) (move : ThreadsMove) :
    (threads.next move).warnings = threads.warnings + (threads.means move).countP Item.isWatchdog := by
  cases move with
  | tick elapsed => rfl
  | control => rfl
  | request frame => rfl
  | watch =>
      rw [next, means, watch]
      cases threads.stage <;> rfl
  | respond =>
      rw [next, means, respond]
      cases threads.answering with
      | true => rfl
      | false =>
          rw [if_neg Bool.false_ne_true, if_neg Bool.false_ne_true]
          split_ifs <;> rfl

theorem warnings_run (threads : ServerThreads) (moves : List ThreadsMove) :
    (Machine.run next threads moves).warnings =
      threads.warnings + (translated next means threads moves).countP Item.isWatchdog := by
  induction moves generalizing threads with
  | nil => rfl
  | cons move moves ih => rw [run_cons, ih, translated, List.countP_append, warnings_next, Nat.add_assoc]

/-- **The threads, to the server.** However they are interleaved and held up, the server goes through a run of
control steps, requests and watchdog responses; of these there is at most one, one for each warning that is
printed, and only once the watchdog has tripped. -/
theorem run_of_boot (server : Server) (clock : Int) (moves : List ThreadsMove) :
    let threads := Machine.run next (boot server clock) moves
    let items := translated next means (boot server clock) moves
    threads.server = Machine.run Server.next server items ∧ threads.warnings = items.countP Item.isWatchdog ∧
      items.countP Item.isWatchdog ≤ 1 ∧ (Item.watchdog ∈ items → threads.watchdog.tripped = true) := by
  intro threads items
  have hwarnings : threads.warnings = items.countP Item.isWatchdog :=
    (warnings_run _ moves).trans (Nat.zero_add _)
  have hanswered : threads.Answered := run_invariant (fun _ move h => h.next move) (answered_boot server clock) moves
  have hcount := hanswered.warnings
  refine ⟨server_run _ moves, hwarnings, ?_, ?_⟩
  · split_ifs at hcount <;> omega
  · intro hitem
    have hpos : 0 < items.countP Item.isWatchdog := List.countP_pos_iff.2 ⟨_, hitem, rfl⟩
    apply hanswered.tripped
    by_contra hnever
    rw [if_neg hnever] at hcount
    omega

end ServerThreads

/-! ### Reaction times -/

/-- The threads, and when each of them has last done something: completed a control step, read the heartbeat,
completed a round, looked at the trip. -/
structure TimedThreads where
  threads : ServerThreads
  steps : Nat
  lastStep : Int
  countedAt : Int
  lastRound : Int
  lastCheck : Int

def ThreadsMove.isControl : ThreadsMove → Bool
  | .control => true
  | _ => false

namespace TimedThreads

def boot (server : Server) (clock : Int) : TimedThreads := ⟨.boot server clock, 0, clock, clock, clock, clock⟩

def next (timed : TimedThreads) (move : ThreadsMove) : TimedThreads where
  threads := timed.threads.next move
  steps := if move.isControl then timed.steps + 1 else timed.steps
  lastStep := if move.isControl then timed.threads.clock else timed.lastStep
  countedAt :=
    match move, timed.threads.stage with
    | .watch, .sleeping => timed.threads.clock
    | _, _ => timed.countedAt
  lastRound :=
    match move, timed.threads.stage with
    | .watch, .startCounted _ | .watch, .timed _ _ => timed.threads.clock
    | _, _ => timed.lastRound
  lastCheck :=
    match move with
    | .respond => if timed.threads.answering then timed.lastCheck else timed.threads.clock
    | _ => timed.lastCheck

theorem threads_run (timed : TimedThreads) (moves : List ThreadsMove) :
    (run next timed moves).threads = run ServerThreads.next timed.threads moves := by
  induction moves generalizing timed with
  | nil => rfl
  | cons move moves ih => exact ih (timed.next move)

/-- When the watchdog reads the heartbeat, a step has been completed within `gap`, and it reads the clock within
`latency` of that. -/
def Beats (gap latency : Int) (timed : TimedThreads) : ThreadsMove → Prop
  | .watch =>
      match timed.threads.stage with
      | .sleeping => timed.threads.clock - timed.lastStep ≤ gap
      | .counted _ => timed.threads.clock - timed.countedAt ≤ latency
      | .starting | .startCounted _ | .timed _ _ => True
  | _ => True

instance (gap latency : Int) : (timed : TimedThreads) → (move : ThreadsMove) → Decidable (timed.Beats gap latency move)
  | ⟨⟨_, clock, _, .sleeping, _, _, _⟩, _, lastStep, _, _, _⟩, .watch =>
      inferInstanceAs (Decidable (clock - lastStep ≤ gap))
  | ⟨⟨_, clock, _, .counted _, _, _, _⟩, _, _, countedAt, _, _⟩, .watch =>
      inferInstanceAs (Decidable (clock - countedAt ≤ latency))
  | ⟨⟨_, _, _, .starting, _, _, _⟩, _, _, _, _, _⟩, .watch
  | ⟨⟨_, _, _, .startCounted _, _, _, _⟩, _, _, _, _, _⟩, .watch
  | ⟨⟨_, _, _, .timed _ _, _, _, _⟩, _, _, _, _, _⟩, .watch
  | _, .tick _ | _, .control | _, .request _ | _, .respond => inferInstanceAs (Decidable True)

/-- The step count that the watchdog remembers is one there has been; while it is the latest, the last step is no
later than the change. -/
structure Remembers (steps : Nat) (latest : Int) (watchdog : Watchdog) (n : Nat) : Prop where
  le : n ≤ steps
  counter : watchdog.lastSeenCounter = BitVec.ofNat 64 n
  lastStep : n = steps → latest ≤ watchdog.lastChangeTimeNs

/-- A round has read a later step count, or the same one no more than `gap` after the change. -/
structure Reads (steps : Nat) (latest : Int) (watchdog : Watchdog) (gap : Int) (current : BitVec 64) (time : Int)
    (n m : Nat) : Prop extends Remembers steps latest watchdog n where
  mono : n ≤ m
  le' : m ≤ steps
  current : current = BitVec.ofNat 64 m
  lastStep' : m = steps → latest ≤ time
  same : m = n → time ≤ watchdog.lastChangeTimeNs + gap

/-- What the watchdog works on. -/
def StageSound (gap latency : Int) (timed : TimedThreads) : Prop :=
  match timed.threads.stage with
  | .starting => timed.threads.watchdog.running = false
  | .startCounted counter =>
      timed.threads.watchdog.running = false ∧ ∃ n ≤ timed.steps, counter = BitVec.ofNat 64 n
  | .sleeping => ∃ n, Remembers timed.steps timed.lastStep timed.threads.watchdog n
  | .counted current =>
      timed.countedAt ≤ timed.threads.clock ∧
        ∃ n m, Reads timed.steps timed.lastStep timed.threads.watchdog gap current timed.countedAt n m
  | .timed current now =>
      ∃ n m, Reads timed.steps timed.lastStep timed.threads.watchdog (gap + latency) current now n m

theorem Remembers.step {steps : Nat} {lastStep : Int} {watchdog : Watchdog} {n : Nat}
    (h : Remembers steps lastStep watchdog n) (now : Int) : Remembers (steps + 1) now watchdog n where
  le := Nat.le_succ_of_le h.le
  counter := h.counter
  lastStep heq := absurd h.le (by omega)

theorem Reads.step {steps : Nat} {lastStep : Int} {watchdog : Watchdog} {gap : Int} {current : BitVec 64}
    {time : Int} {n m : Nat} (h : Reads steps lastStep watchdog gap current time n m) (now : Int) :
    Reads (steps + 1) now watchdog gap current time n m where
  toRemembers := h.toRemembers.step now
  mono := h.mono
  le' := Nat.le_succ_of_le h.le'
  current := h.current
  lastStep' heq := absurd h.le' (by omega)
  same := h.same

/-- Nothing has tripped. -/
structure Beating (gap latency : Int) (timed : TimedThreads) : Prop where
  cycles : timed.threads.server.controlLoop.cyclesExecuted = BitVec.ofNat 64 timed.steps
  lastStep : timed.lastStep ≤ timed.threads.clock
  timeout : timed.threads.watchdog.timeout = 100000000
  tripped : timed.threads.watchdog.tripped = false
  alreadyTripped : timed.threads.alreadyTripped = false
  answering : timed.threads.answering = false
  stage : StageSound gap latency timed

theorem beating_boot {server : Server} (h : server.controlLoop.cyclesExecuted = 0) (clock gap latency : Int) :
    (boot server clock).Beating gap latency where
  cycles := h
  lastStep := Int.le_refl clock
  timeout := rfl
  tripped := rfl
  alreadyTripped := rfl
  answering := rfl
  stage := rfl

theorem controlLoop_dispatch (server : Server) (frame : Frame) :
    (server.dispatch frame).1.controlLoop = server.controlLoop :=
  (server.dispatchFrame frame).controlLoop

/-- One move of the watchdog while the steps keep coming. -/
theorem Beating.watch {gap latency : Int} (hbound : gap + latency < 100000000) {timed : TimedThreads}
    (h : timed.Beating gap latency) (hfew : timed.steps < 2 ^ 64) (hbeats : timed.Beats gap latency .watch) :
    (timed.next .watch).Beating gap latency := by
  obtain ⟨⟨server, clock, watchdog, stage, alreadyTripped, answering, warnings⟩, steps, lastStep, countedAt,
    lastRound, lastCheck⟩ := timed
  obtain ⟨hcycles, hlastStep, htimeout, htripped, halready, hanswering, hstage⟩ := h
  dsimp only at hcycles hlastStep htimeout htripped halready hanswering hfew
  cases stage with
  | starting =>
      exact ⟨hcycles, hlastStep, htimeout, htripped, halready, hanswering, hstage, steps, Nat.le_refl steps, hcycles⟩
  | startCounted counter =>
      obtain ⟨hrunning, n, hn, hcounter⟩ := hstage
      have hstart : (watchdog.start ⟨clock, counter⟩).2 =
          { watchdog with
            running := true
            lastSeenCounter := counter
            lastChangeTimeNs := clock
            tripped := false } := by
        rw [Watchdog.start, if_neg (by rw [hrunning]; exact Bool.false_ne_true)]
      unfold TimedThreads.next ServerThreads.next ServerThreads.watch
      dsimp only
      rw [hstart]
      exact ⟨hcycles, hlastStep, htimeout, rfl, halready, hanswering, n, hn, hcounter, fun _ => hlastStep⟩
  | sleeping =>
      obtain ⟨n, hn⟩ := hstage
      have hgap : clock - lastStep ≤ gap := hbeats
      refine ⟨hcycles, hlastStep, htimeout, htripped, halready, hanswering, Int.le_refl clock, n, steps,
        ⟨hn.le, hn.counter, hn.lastStep⟩, hn.le, Nat.le_refl steps, hcycles, fun _ => hlastStep, fun hsame => ?_⟩
      have hseen := hn.lastStep hsame.symm
      dsimp only at hseen ⊢
      exact (show clock ≤ watchdog.lastChangeTimeNs + gap by omega)
  | counted current =>
      obtain ⟨hcounted, n, m, hn⟩ := hstage
      have hlatency : clock - countedAt ≤ latency := hbeats
      dsimp only at hcounted
      refine ⟨hcycles, hlastStep, htimeout, htripped, halready, hanswering, n, m,
        ⟨hn.le, hn.counter, hn.lastStep⟩, hn.mono, hn.le', hn.current, fun _ => hlastStep, fun hsame => ?_⟩
      have hread := hn.same hsame
      dsimp only at hread
      exact (show clock ≤ watchdog.lastChangeTimeNs + (gap + latency) by omega)
  | timed current now =>
      obtain ⟨n, m, hn⟩ := hstage
      have hcounter : watchdog.lastSeenCounter = BitVec.ofNat 64 n := hn.counter
      have hcurrent := hn.current
      have hle : m ≤ steps := hn.le'
      unfold TimedThreads.next ServerThreads.next ServerThreads.watch
      dsimp only
      by_cases hsame : m = n
      · have hread : now ≤ watchdog.lastChangeTimeNs + (gap + latency) := hn.same hsame
        have hpoll : watchdog.poll ⟨now, current⟩ = watchdog := by
          rw [Watchdog.poll, if_neg (by simp [hcurrent, hcounter, hsame]), if_neg (by dsimp only; omega)]
        rw [hpoll]
        exact ⟨hcycles, hlastStep, htimeout, htripped, halready, hanswering, n, hn.le, hn.counter, hn.lastStep⟩
      · have hchanged : current ≠ watchdog.lastSeenCounter := by
          rw [hcurrent, hcounter]
          intro heq
          have hmod := congrArg BitVec.toNat heq
          have hmono := hn.mono
          rw [BitVec.toNat_ofNat, BitVec.toNat_ofNat, Nat.mod_eq_of_lt (by omega), Nat.mod_eq_of_lt (by omega)] at hmod
          exact hsame hmod
        have hpoll : watchdog.poll ⟨now, current⟩ =
            { watchdog with
              lastSeenCounter := current
              lastChangeTimeNs := now } := by
          rw [Watchdog.poll, if_pos hchanged]
        rw [hpoll]
        exact ⟨hcycles, hlastStep, htimeout, htripped, halready, hanswering, m, hle, hcurrent, hn.lastStep'⟩

/-- Moves of the other threads, between two of the watchdog. -/
theorem Beating.next {gap latency : Int} (hbound : gap + latency < 100000000) {timed : TimedThreads}
    (h : timed.Beating gap latency) (hfew : timed.steps < 2 ^ 64) {move : ThreadsMove}
    (hbeats : timed.Beats gap latency move) : (timed.next move).Beating gap latency := by
  cases move with
  | watch => exact h.watch hbound hfew hbeats
  | respond =>
      have hsame : timed.threads.respond = timed.threads := by
        rw [ServerThreads.respond, if_neg (by rw [h.answering]; exact Bool.false_ne_true),
          if_neg (by rw [h.tripped]; exact Bool.false_ne_true)]
      unfold TimedThreads.next ServerThreads.next
      dsimp only
      rw [hsame]
      exact ⟨h.cycles, h.lastStep, h.timeout, h.tripped, h.alreadyTripped, h.answering, h.stage⟩
  | request frame =>
      refine ⟨?_, h.lastStep, h.timeout, h.tripped, h.alreadyTripped, h.answering, h.stage⟩
      exact (congrArg ControlLoop.cyclesExecuted (controlLoop_dispatch timed.threads.server frame)).trans h.cycles
  | tick elapsed =>
      refine ⟨h.cycles, ?_, h.timeout, h.tripped, h.alreadyTripped, h.answering, ?_⟩
      · exact h.lastStep.trans (by show timed.threads.clock ≤ timed.threads.clock + elapsed; omega)
      · have hstage := h.stage
        unfold StageSound at hstage ⊢
        dsimp only [TimedThreads.next, ServerThreads.next]
        cases hwatch : timed.threads.stage with
        | counted current =>
            rw [hwatch] at hstage
            exact ⟨hstage.1.trans (by omega), hstage.2⟩
        | _ =>
            rw [hwatch] at hstage
            exact hstage
  | control =>
      refine ⟨?_, Int.le_refl timed.threads.clock, h.timeout, h.tripped, h.alreadyTripped, h.answering, ?_⟩
      · have hcycles := h.cycles
        show timed.threads.server.controlLoop.cyclesExecuted + 1 = BitVec.ofNat 64 (timed.steps + 1)
        rw [hcycles, BitVec.ofNat_add]
        rfl
      · have hstage := h.stage
        unfold StageSound at hstage ⊢
        dsimp only [TimedThreads.next, ServerThreads.next]
        cases hwatch : timed.threads.stage with
        | starting =>
            rw [hwatch] at hstage
            exact hstage
        | startCounted counter =>
            rw [hwatch] at hstage
            obtain ⟨hrunning, n, hn, hcounter⟩ := hstage
            exact ⟨hrunning, n, Nat.le_succ_of_le hn, hcounter⟩
        | sleeping =>
            rw [hwatch] at hstage
            obtain ⟨n, hn⟩ := hstage
            exact ⟨n, hn.step _⟩
        | counted current =>
            rw [hwatch] at hstage
            obtain ⟨hcounted, n, m, hn⟩ := hstage
            exact ⟨hcounted, n, m, hn.step _⟩
        | timed current now =>
            rw [hwatch] at hstage
            obtain ⟨n, m, hn⟩ := hstage
            exact ⟨n, m, hn.step _⟩

theorem throughout_beating {gap latency : Int} (hbound : gap + latency < 100000000) {timed : TimedThreads}
    (h : timed.Beating gap latency) {moves : List ThreadsMove}
    (hfew : timed.steps + moves.countP ThreadsMove.isControl < 2 ^ 64)
    (hbeats : Along next (Beats gap latency) timed moves) : Throughout next (Beating gap latency) timed moves := by
  induction moves generalizing timed with
  | nil => exact h
  | cons move moves ih =>
      rw [List.countP_cons] at hfew
      have hless : timed.steps < 2 ^ 64 := lt_of_le_of_lt (Nat.le_add_right _ _) hfew
      refine ⟨h, ih (h.next hbound hless hbeats.1) ?_ hbeats.2⟩
      have hsteps : (timed.next move).steps = if move.isControl then timed.steps + 1 else timed.steps := rfl
      rw [hsteps]
      split_ifs at hfew ⊢ <;> omega

/-- **No stop without cause.** As long as a control step has been completed shortly before each of the watchdog's
looks at the heartbeat, and the clock is read soon after the look, the two within the timeout together, the
watchdog does not trip and the server takes no stop from it, however the threads are interleaved. -/
theorem never_trips (config : RobotConfig Binary64) (h : config.validate = .ok ()) (brakes : List VirtualBrake)
    (clock gap latency : Int) (hbound : gap + latency < 100000000) (moves : List ThreadsMove)
    (hfew : moves.countP ThreadsMove.isControl < 2 ^ 64)
    (hbeats : Along next (Beats gap latency) (boot (.boot config h brakes) clock) moves) :
    Throughout next (fun timed => timed.threads.watchdog.tripped = false) (boot (.boot config h brakes) clock) moves ∧
      Item.watchdog ∉
        translated ServerThreads.next ServerThreads.means (.boot (.boot config h brakes) clock) moves := by
  have hrun : Throughout next (Beating gap latency) (boot (.boot config h brakes) clock) moves := by
    apply throughout_beating hbound (beating_boot rfl clock gap latency) _ hbeats
    rwa [boot, Nat.zero_add]
  refine ⟨hrun.mono fun timed hbeating => hbeating.tripped, ?_⟩
  intro hitem
  have hpos : 0 < (translated ServerThreads.next ServerThreads.means
      (.boot (.boot config h brakes) clock) moves).countP Item.isWatchdog :=
    List.countP_pos_iff.2 ⟨_, hitem, rfl⟩
  have hwarnings := ServerThreads.warnings_run (.boot (.boot config h brakes) clock) moves
  have hlast := hrun.last
  have hanswered : (run next (boot (.boot config h brakes) clock) moves).threads.Answered := by
    rw [threads_run]
    exact run_invariant (fun _ move h => h.next move) (ServerThreads.answered_boot _ clock) moves
  have hcount := hanswered.warnings
  rw [hlast.alreadyTripped, hlast.answering, threads_run] at hcount
  rw [show (boot (.boot config h brakes) clock).threads = .boot (.boot config h brakes) clock from rfl,
    hwarnings] at hcount
  simp only [Bool.false_eq_true, if_false, Nat.add_zero] at hcount
  omega

/-- The start of the watchdog, and a round of it every ten milliseconds. -/
def steadyMoves (rounds : Nat) : List ThreadsMove :=
  [.watch, .watch] ++
    (List.replicate rounds [.tick 10000000, .control, .watch, .watch, .watch, .respond]).flatten

theorem never_trips_steady :
    Throughout next (fun timed => timed.threads.watchdog.tripped = false)
        (boot (.boot (Server.scenario 1) (by decide) []) 0) (steadyMoves 20) ∧
      Item.watchdog ∉ translated ServerThreads.next ServerThreads.means
        (.boot (.boot (Server.scenario 1) (by decide) []) 0) (steadyMoves 20) :=
  never_trips (Server.scenario 1) (by decide) [] 0 10000000 0 (by decide) (steadyMoves 20) (by decide)
    (by decide +kernel)

/-- A watchdog that is held up between its two looks takes steps that come every millisecond for a stall. -/
example : (run next (boot (.boot (Server.scenario 1) (by decide) []) 0)
    ([.watch, .watch, .watch] ++ (List.replicate 100 [.tick 1000000, .control]).flatten ++
      [.watch, .watch])).threads.watchdog.tripped = true := by
  decide +kernel

/-! #### When the steps stop -/

/-- The watchdog's rounds end within `round` of each other, the response thread looks at the trip within `check` of
its last look, and gets the mutex within `answer`. -/
def Prompt (round check answer : Nat) (timed : TimedThreads) : Prop :=
  timed.threads.clock ≤ timed.lastRound + round ∧
    (timed.threads.alreadyTripped = false → timed.threads.clock ≤ timed.lastCheck + check) ∧
    (timed.threads.answering = true → timed.threads.clock ≤ timed.lastCheck + answer)

instance (round check answer : Nat) (timed : TimedThreads) : Decidable (timed.Prompt round check answer) :=
  inferInstanceAs (Decidable (_ ∧ _))

/-- The last round and the last look are past, the last change that the watchdog has seen was no later than its last
round, and a round that has read the clock has begun after the one before. -/
structure Kept (timed : TimedThreads) : Prop where
  answered : timed.threads.Answered
  lastRound : timed.lastRound ≤ timed.threads.clock
  lastCheck : timed.lastCheck ≤ timed.threads.clock
  lastChange : timed.threads.Started → timed.threads.watchdog.lastChangeTimeNs ≤ timed.lastRound
  timed : ∀ current now, timed.threads.stage = .timed current now → timed.lastRound ≤ now ∧ now ≤ timed.threads.clock

theorem kept_boot (server : Server) (clock : Int) : (boot server clock).Kept where
  answered := ServerThreads.answered_boot server clock
  lastRound := Int.le_refl clock
  lastCheck := Int.le_refl clock
  lastChange h := h.elim
  timed _ _ h := by cases h

theorem lastChangeTimeNs_poll_le {watchdog : Watchdog} {observed : Observation} {clock : Int}
    (hlast : watchdog.lastChangeTimeNs ≤ clock) (htime : observed.time ≤ clock) :
    (watchdog.poll observed).lastChangeTimeNs ≤ clock := by
  unfold Watchdog.poll
  split_ifs
  · exact htime
  · exact hlast
  · exact hlast

theorem Kept.watch {timed : TimedThreads} (h : timed.Kept) : (timed.next .watch).Kept := by
  have hanswered := h.answered.watch
  obtain ⟨⟨server, clock, watchdog, stage, alreadyTripped, answering, warnings⟩, steps, lastStep, countedAt,
    lastRound, lastCheck⟩ := timed
  obtain ⟨hbefore, hround, hcheck, hchange, htimed⟩ := h
  cases stage with
  | starting => exact ⟨hanswered, hround, hcheck, fun hstarted => hstarted.elim, fun _ _ h => by cases h⟩
  | startCounted counter =>
      refine ⟨hanswered, Int.le_refl clock, hcheck, fun _ => ?_, fun _ _ h => by cases h⟩
      show (watchdog.start ⟨clock, counter⟩).2.lastChangeTimeNs ≤ clock
      have hrunning : watchdog.running = false := (hbefore.unstarted id).1
      rw [Watchdog.start, if_neg (by rw [hrunning]; exact Bool.false_ne_true)]
  | sleeping => exact ⟨hanswered, hround, hcheck, fun _ => hchange trivial, fun _ _ h => by cases h⟩
  | counted current =>
      refine ⟨hanswered, hround, hcheck, fun _ => hchange trivial, fun _ now h => ?_⟩
      injection h with _ hnow
      subst hnow
      exact ⟨hround, Int.le_refl clock⟩
  | timed current now =>
      obtain ⟨-, hnow⟩ := htimed current now rfl
      refine ⟨hanswered, Int.le_refl clock, hcheck, fun _ => ?_, fun _ _ h => by cases h⟩
      exact lastChangeTimeNs_poll_le ((hchange trivial).trans hround) hnow

theorem Kept.next {timed : TimedThreads} (h : timed.Kept) (move : ThreadsMove) : (timed.next move).Kept := by
  cases move with
  | watch => exact h.watch
  | control => exact ⟨h.answered.next .control, h.lastRound, h.lastCheck, h.lastChange, h.timed⟩
  | request frame => exact ⟨h.answered.next (.request frame), h.lastRound, h.lastCheck, h.lastChange, h.timed⟩
  | tick elapsed =>
      have hlater : timed.threads.clock ≤ timed.threads.clock + elapsed := by omega
      refine ⟨h.answered.next (.tick elapsed), h.lastRound.trans hlater, h.lastCheck.trans hlater, h.lastChange, ?_⟩
      intro current now hstage
      obtain ⟨hbefore, hnow⟩ := h.timed current now hstage
      exact ⟨hbefore, hnow.trans hlater⟩
  | respond =>
      obtain ⟨hclock, hwatchdog, hstage⟩ := timed.threads.respond_frame
      refine ⟨h.answered.next .respond, ?_, ?_, ?_, ?_⟩
      · exact h.lastRound.trans hclock.ge
      · show (if timed.threads.answering then timed.lastCheck else timed.threads.clock) ≤ timed.threads.respond.clock
        rw [hclock]
        split_ifs
        · exact h.lastCheck
        · exact Int.le_refl _
      · show timed.threads.respond.Started → timed.threads.respond.watchdog.lastChangeTimeNs ≤ timed.lastRound
        rw [ServerThreads.Started, hstage, hwatchdog]
        exact h.lastChange
      · show ∀ current now, timed.threads.respond.stage = .timed current now →
          timed.lastRound ≤ now ∧ now ≤ timed.threads.respond.clock
        rw [hstage, hclock]
        exact h.timed

/-- The round that the watchdog is in has read the heartbeat as it is. -/
def Fresh (heartbeat : BitVec 64) : WatchStage → Prop
  | .starting | .startCounted _ => False
  | .sleeping => True
  | .counted current | .timed current _ => current = heartbeat

/-- The round that the watchdog is in has read another heartbeat. -/
def Stale (heartbeat : BitVec 64) : WatchStage → Prop
  | .starting | .startCounted _ | .sleeping => False
  | .counted current | .timed current _ => current ≠ heartbeat

/-- How far the watchdog and the response thread have got after the last control step, before `begun`. -/
inductive Stalled (begun : Int) (round check : Nat) (heartbeat : BitVec 64) (timed : TimedThreads) : Prop
  | stale (tripped : timed.threads.watchdog.tripped = false) (stage : Stale heartbeat timed.threads.stage)
      (lastRound : timed.lastRound ≤ begun)
  | unseen (tripped : timed.threads.watchdog.tripped = false) (stage : Fresh heartbeat timed.threads.stage)
      (counter : timed.threads.watchdog.lastSeenCounter ≠ heartbeat) (lastRound : timed.lastRound ≤ begun + round)
  | seen (tripped : timed.threads.watchdog.tripped = false) (stage : Fresh heartbeat timed.threads.stage)
      (counter : timed.threads.watchdog.lastSeenCounter = heartbeat)
      (lastChange : timed.threads.watchdog.lastChangeTimeNs ≤ begun + 2 * round)
      (lastRound : timed.lastRound ≤ begun + 100000000 + 3 * round)
  | tripped (tripped : timed.threads.watchdog.tripped = true)
      (unanswered : timed.threads.alreadyTripped = false → timed.lastCheck ≤ begun + 100000000 + 4 * round)
      (answering : timed.threads.answering = true → timed.lastCheck ≤ begun + 100000000 + 4 * round + check)

/-- Before the trip the response thread has nothing to answer. -/
theorem Kept.unanswered {timed : TimedThreads} (h : timed.Kept) (htripped : timed.threads.watchdog.tripped = false) :
    timed.threads.alreadyTripped = false ∧ timed.threads.answering = false := by
  have halready : timed.threads.alreadyTripped = false := by
    rw [← Bool.not_eq_true]
    intro halready
    exact absurd (h.answered.tripped halready) (by rw [htripped]; exact Bool.false_ne_true)
  have hcount := h.answered.warnings
  rw [halready, if_neg Bool.false_ne_true] at hcount
  refine ⟨halready, ?_⟩
  rw [← Bool.not_eq_true]
  intro hanswering
  rw [if_pos hanswering] at hcount
  omega

/-- The watchdog when the steps stop. -/
theorem Kept.stalled {timed : TimedThreads} (h : timed.Kept) (hstarted : timed.threads.Started) (round check : Nat) :
    Stalled timed.threads.clock round check timed.threads.server.controlLoop.cyclesExecuted timed := by
  have hround := h.lastRound
  have hcheck := h.lastCheck
  have hchange := (h.lastChange hstarted).trans hround
  cases htripped : timed.threads.watchdog.tripped with
  | true => exact .tripped htripped (fun _ => by omega) (fun _ => by omega)
  | false =>
      by_cases hstale : Stale timed.threads.server.controlLoop.cyclesExecuted timed.threads.stage
      · exact .stale htripped hstale hround
      · have hfresh : Fresh timed.threads.server.controlLoop.cyclesExecuted timed.threads.stage := by
          unfold ServerThreads.Started at hstarted
          cases hstage : timed.threads.stage with
          | starting | startCounted counter =>
              rw [hstage] at hstarted
              exact hstarted
          | sleeping => trivial
          | counted current | timed current now =>
              rw [hstage] at hstale
              exact of_not_not hstale
        by_cases hseen : timed.threads.watchdog.lastSeenCounter = timed.threads.server.controlLoop.cyclesExecuted
        · exact .seen htripped hfresh hseen (by omega) (by omega)
        · exact .unseen htripped hfresh hseen (by omega)

/-- What one round of the watchdog does. -/
theorem poll_cases (watchdog : Watchdog) (observed : Observation) :
    (observed.counter ≠ watchdog.lastSeenCounter ∧ watchdog.poll observed =
      { watchdog with lastSeenCounter := observed.counter, lastChangeTimeNs := observed.time }) ∨
    (observed.counter = watchdog.lastSeenCounter ∧ watchdog.timeout ≤ observed.time - watchdog.lastChangeTimeNs ∧
      watchdog.poll observed = { watchdog with tripped := true }) ∨
    (observed.counter = watchdog.lastSeenCounter ∧ observed.time - watchdog.lastChangeTimeNs < watchdog.timeout ∧
      watchdog.poll observed = watchdog) := by
  unfold Watchdog.poll
  split_ifs with hchanged hlate
  · exact .inl ⟨hchanged, rfl⟩
  · exact .inr (.inl ⟨of_not_not hchanged, hlate, rfl⟩)
  · exact .inr (.inr ⟨of_not_not hchanged, not_le.1 hlate, rfl⟩)

/-- The end of a round after the steps have stopped. -/
theorem Stalled.poll {begun : Int} {round check : Nat} {heartbeat current : BitVec 64} {now : Int}
    {timed : TimedThreads} (h : timed.Stalled begun round check heartbeat) (hkept : timed.Kept)
    (hstage : timed.threads.stage = .timed current now) (hround : timed.threads.clock ≤ timed.lastRound + round) :
    (timed.next .watch).Stalled begun round check heartbeat := by
  obtain ⟨hbefore, hnow⟩ := hkept.timed current now hstage
  have htimeout := hkept.answered.timeout
  have hcheck := hkept.lastCheck
  have hunanswered := hkept.unanswered
  obtain ⟨⟨server, clock, watchdog, stage, alreadyTripped, answering, warnings⟩, steps, lastStep, countedAt,
    lastRound, lastCheck⟩ := timed
  dsimp only at hstage hbefore hnow htimeout hcheck hround
  subst hstage
  unfold TimedThreads.next ServerThreads.next ServerThreads.watch
  dsimp only
  have htrip : watchdog.tripped = false → clock ≤ begun + 100000000 + 4 * round →
      Stalled begun round check heartbeat ⟨⟨server, clock, { watchdog with tripped := true }, .sleeping, alreadyTripped,
        answering, warnings⟩, steps, lastStep, countedAt, clock, lastCheck⟩ := by
    intro huntripped hclock
    refine .tripped rfl (fun _ => hcheck.trans hclock) (fun hanswering => ?_)
    exact absurd hanswering (by rw [(hunanswered huntripped).2]; exact Bool.false_ne_true)
  rcases poll_cases watchdog ⟨now, current⟩ with ⟨hcounter, hpoll⟩ | ⟨hcounter, hlate, hpoll⟩ | ⟨hcounter, hwait, hpoll⟩
  · -- a change is seen
    rw [hpoll]
    cases h with
    | stale htripped hstale hlast =>
        dsimp only at hlast
        exact .unseen htripped trivial hstale (show clock ≤ begun + round by omega)
    | unseen htripped hfresh _ hlast =>
        dsimp only at hlast
        have hheartbeat : current = heartbeat := hfresh
        refine .seen htripped trivial hheartbeat ?_ ?_
        · show now ≤ begun + 2 * round
          omega
        · show clock ≤ begun + 100000000 + 3 * round
          omega
    | seen htripped hfresh hsame _ _ =>
        have hheartbeat : current = heartbeat := hfresh
        exact absurd (hheartbeat.trans hsame.symm) hcounter
    | tripped htripped hun hans => exact .tripped htripped hun hans
  · -- the watchdog trips
    rw [hpoll]
    cases h with
    | stale htripped _ hlast =>
        dsimp only at hlast
        exact htrip htripped (by omega)
    | unseen htripped _ _ hlast =>
        dsimp only at hlast
        exact htrip htripped (by omega)
    | seen htripped _ _ _ hlast =>
        dsimp only at hlast
        exact htrip htripped (by omega)
    | tripped htripped hun hans => exact .tripped rfl hun hans
  · rw [hpoll]
    cases h with
    | stale htripped hstale hlast =>
        dsimp only at hlast
        have hother : current ≠ heartbeat := hstale
        refine .unseen htripped trivial ?_ (show clock ≤ begun + round by omega)
        exact fun hsame => hother (hcounter.trans hsame)
    | unseen htripped hfresh hother _ =>
        have hheartbeat : current = heartbeat := hfresh
        exact absurd (hcounter.symm.trans hheartbeat) hother
    | seen htripped _ hsame hchange _ =>
        dsimp only at hchange hwait
        refine .seen htripped trivial hsame hchange ?_
        -- the round has read the clock before the timeout, and ends within `round` of the one before
        show clock ≤ begun + 100000000 + 3 * round
        omega
    | tripped htripped hun hans => exact .tripped htripped hun hans

theorem Stalled.watch {begun : Int} {round check : Nat} {heartbeat : BitVec 64} {timed : TimedThreads}
    (h : timed.Stalled begun round check heartbeat) (hkept : timed.Kept) (hstarted : timed.threads.Started)
    (hround : timed.threads.clock ≤ timed.lastRound + round)
    (hheartbeat : timed.threads.server.controlLoop.cyclesExecuted = heartbeat) :
    (timed.next .watch).Stalled begun round check heartbeat := by
  cases hstage : timed.threads.stage with
  | starting | startCounted counter =>
      rw [ServerThreads.Started, hstage] at hstarted
      exact hstarted.elim
  | timed current now => exact h.poll hkept hstage hround
  | sleeping =>
      obtain ⟨⟨server, clock, watchdog, stage, alreadyTripped, answering, warnings⟩, steps, lastStep, countedAt,
        lastRound, lastCheck⟩ := timed
      dsimp only at hstage
      subst hstage
      cases h with
      | stale htripped hstale _ => exact hstale.elim
      | unseen htripped _ hother hlast => exact .unseen htripped hheartbeat hother hlast
      | seen htripped _ hsame hchange hlast => exact .seen htripped hheartbeat hsame hchange hlast
      | tripped htripped hun hans => exact .tripped htripped hun hans
  | counted current =>
      obtain ⟨⟨server, clock, watchdog, stage, alreadyTripped, answering, warnings⟩, steps, lastStep, countedAt,
        lastRound, lastCheck⟩ := timed
      dsimp only at hstage
      subst hstage
      cases h with
      | stale htripped hstale hlast => exact .stale htripped hstale hlast
      | unseen htripped hfresh hother hlast => exact .unseen htripped hfresh hother hlast
      | seen htripped hfresh hsame hchange hlast => exact .seen htripped hfresh hsame hchange hlast
      | tripped htripped hun hans => exact .tripped htripped hun hans

theorem Stalled.respond {begun : Int} {round check : Nat} {heartbeat : BitVec 64} {timed : TimedThreads}
    (h : timed.Stalled begun round check heartbeat) (hkept : timed.Kept)
    (hcheck : timed.threads.alreadyTripped = false → timed.threads.clock ≤ timed.lastCheck + check) :
    (timed.next .respond).Stalled begun round check heartbeat := by
  have hidle : timed.threads.watchdog.tripped = false →
      timed.next .respond = { timed with lastCheck := timed.threads.clock } := by
    intro htripped
    obtain ⟨-, hanswering⟩ := hkept.unanswered htripped
    have hsame : timed.threads.respond = timed.threads := by
      rw [ServerThreads.respond, if_neg (by rw [hanswering]; exact Bool.false_ne_true),
        if_neg (by rw [htripped]; exact Bool.false_ne_true)]
    unfold TimedThreads.next ServerThreads.next
    dsimp only
    rw [hsame, hanswering]
    rfl
  cases h with
  | stale htripped hstale hlast =>
      rw [hidle htripped]
      exact .stale htripped hstale hlast
  | unseen htripped hfresh hother hlast =>
      rw [hidle htripped]
      exact .unseen htripped hfresh hother hlast
  | seen htripped hfresh hsame hchange hlast =>
      rw [hidle htripped]
      exact .seen htripped hfresh hsame hchange hlast
  | tripped htripped hun hans =>
      obtain ⟨⟨server, clock, watchdog, stage, alreadyTripped, answering, warnings⟩, steps, lastStep, countedAt,
        lastRound, lastCheck⟩ := timed
      dsimp only at htripped hun hcheck
      unfold TimedThreads.next ServerThreads.next ServerThreads.respond
      dsimp only
      rw [htripped]
      cases answering with
      | true => exact .tripped htripped hun (fun hanswering => absurd hanswering Bool.false_ne_true)
      | false =>
          cases alreadyTripped with
          | true => exact .tripped htripped (fun hnot => by cases hnot) (fun hanswering => by cases hanswering)
          | false =>
              refine .tripped htripped (fun hnot => by cases hnot) (fun _ => ?_)
              have hlook := hcheck rfl
              have hsince := hun rfl
              show clock ≤ begun + 100000000 + 4 * round + check
              omega

theorem Stalled.next {begun : Int} {round check answer : Nat} {heartbeat : BitVec 64} {timed : TimedThreads}
    (h : timed.Stalled begun round check heartbeat) (hkept : timed.Kept) (hstarted : timed.threads.Started)
    (hprompt : timed.Prompt round check answer)
    (hheartbeat : timed.threads.server.controlLoop.cyclesExecuted = heartbeat) {move : ThreadsMove}
    (hmove : move.isControl = false) : (timed.next move).Stalled begun round check heartbeat := by
  cases move with
  | watch => exact h.watch hkept hstarted hprompt.1 hheartbeat
  | respond => exact h.respond hkept hprompt.2.1
  | control => exact absurd hmove (by decide)
  | request frame | tick elapsed =>
      cases h with
      | stale htripped hstale hlast => exact .stale htripped hstale hlast
      | unseen htripped hfresh hother hlast => exact .unseen htripped hfresh hother hlast
      | seen htripped hfresh hsame hchange hlast => exact .seen htripped hfresh hsame hchange hlast
      | tripped htripped hun hans => exact .tripped htripped hun hans

theorem started_next {timed : TimedThreads} (h : timed.threads.Started) (move : ThreadsMove) :
    (timed.next move).threads.Started := by
  cases move with
  | tick elapsed | control | request frame => exact h
  | respond =>
      show timed.threads.respond.Started
      rw [ServerThreads.Started, timed.threads.respond_frame.2.2]
      exact h
  | watch =>
      show timed.threads.watch.Started
      rw [ServerThreads.watch]
      cases hstage : timed.threads.stage with
      | starting | startCounted counter =>
          rw [ServerThreads.Started, hstage] at h
          exact h.elim
      | sleeping | counted current | timed current now => trivial

/-- Nothing but a control step advances the heartbeat. -/
theorem cyclesExecuted_next (timed : TimedThreads) {move : ThreadsMove} (hmove : move.isControl = false) :
    (timed.next move).threads.server.controlLoop.cyclesExecuted =
      timed.threads.server.controlLoop.cyclesExecuted := by
  cases move with
  | tick elapsed => rfl
  | control => exact absurd hmove (by decide)
  | request frame => exact congrArg ControlLoop.cyclesExecuted (controlLoop_dispatch timed.threads.server frame)
  | watch => exact congrArg (·.controlLoop.cyclesExecuted) timed.threads.server_watch
  | respond =>
      refine (congrArg (·.controlLoop.cyclesExecuted) timed.threads.server_respond).trans ?_
      split_ifs <;> rfl

theorem stalled_run {begun : Int} {round check answer : Nat} {heartbeat : BitVec 64} {timed : TimedThreads}
    (h : timed.Stalled begun round check heartbeat) (hkept : timed.Kept) (hstarted : timed.threads.Started)
    (hheartbeat : timed.threads.server.controlLoop.cyclesExecuted = heartbeat) {moves : List ThreadsMove}
    (hsilent : ∀ move ∈ moves, move.isControl = false)
    (hprompt : Throughout next (Prompt round check answer) timed moves) :
    (run next timed moves).Stalled begun round check heartbeat ∧ (run next timed moves).Kept := by
  induction moves generalizing timed with
  | nil => exact ⟨h, hkept⟩
  | cons move moves ih =>
      obtain ⟨hmove, hmoves⟩ := List.forall_mem_cons.1 hsilent
      exact ih (h.next hkept hstarted hprompt.1 hheartbeat hmove) (hkept.next move) (started_next hstarted move)
        ((timed.cyclesExecuted_next hmove).trans hheartbeat) hmoves hprompt.2

/-- Long enough after the steps have stopped, the response thread has done its work. -/
theorem Stalled.answered {begun : Int} {round check answer : Nat} {heartbeat : BitVec 64} {timed : TimedThreads}
    (h : timed.Stalled begun round check heartbeat) (hkept : timed.Kept) (hprompt : timed.Prompt round check answer)
    (hlate : begun + 100000000 + 4 * round + check + answer < timed.threads.clock) : timed.threads.warnings = 1 := by
  obtain ⟨hround, hcheck, hanswer⟩ := hprompt
  cases h with
  | stale htripped _ hlast | unseen htripped _ _ hlast | seen htripped _ _ _ hlast => omega
  | tripped htripped hun hans =>
      have halready : timed.threads.alreadyTripped = true := by
        rw [← Bool.not_eq_false]
        intro hnot
        have hlook := hcheck hnot
        have hsince := hun hnot
        omega
      have hdone : timed.threads.answering = false := by
        rw [← Bool.not_eq_true]
        intro hanswering
        have hwait := hanswer hanswering
        have hsince := hans hanswering
        omega
      have hcount := hkept.answered.warnings
      rwa [hdone, halready, if_neg Bool.false_ne_true, if_pos rfl, Nat.add_zero] at hcount

/-- **A stall is answered.** Once the control steps have stopped, from any state that the threads can be in with the
watchdog started, the emergency stop has been triggered when the timeout, four rounds of the watchdog, one look of
the response thread and its wait for the mutex have passed. -/
theorem answers_stall (config : RobotConfig Binary64) (h : config.validate = .ok ()) (brakes : List VirtualBrake)
    (clock : Int) (before later : List ThreadsMove) (round check answer : Nat) :
    let begun := run next (boot (.boot config h brakes) clock) before
    begun.threads.Started → (∀ move ∈ later, move.isControl = false) →
      Throughout next (Prompt round check answer) begun later →
        begun.threads.clock + 100000000 + 4 * round + check + answer < (run next begun later).threads.clock →
          Item.watchdog ∈ translated ServerThreads.next ServerThreads.means (.boot (.boot config h brakes) clock)
            (before ++ later) := by
  intro begun hstarted hsilent hprompt hlate
  have hkept : begun.Kept := run_invariant (fun _ move h => h.next move) (kept_boot _ clock) before
  obtain ⟨hstalled, hkept'⟩ := stalled_run (hkept.stalled hstarted round check) hkept hstarted rfl hsilent hprompt
  have hwarnings := hstalled.answered hkept' hprompt.last hlate
  rw [← run_concat, threads_run] at hwarnings
  have hcount := ServerThreads.warnings_run (.boot (.boot config h brakes) clock) (before ++ later)
  have hpos : 0 < (translated ServerThreads.next ServerThreads.means (.boot (.boot config h brakes) clock)
      (before ++ later)).countP Item.isWatchdog := by
    have hnone : (ServerThreads.boot (.boot config h brakes) clock).warnings = 0 := rfl
    rw [hnone, Nat.zero_add] at hcount
    rw [← hcount]
    exact hwarnings.symm ▸ Nat.one_pos
  obtain ⟨item, hmem, hitem⟩ := List.countP_pos_iff.1 hpos
  cases item with
  | watchdog => exact hmem
  | control | request frame => exact absurd hitem Bool.false_ne_true

/-- A server that takes one step and no more. -/
theorem answers_stall_once :
    Item.watchdog ∈ translated ServerThreads.next ServerThreads.means
      (.boot (.boot (Server.scenario 1) (by decide) []) 0)
      ([.watch, .watch, .control] ++
        (List.replicate 7 [.tick 100000000, .watch, .watch, .watch, .respond, .respond]).flatten) := by
  have hanswers := answers_stall (Server.scenario 1) (by decide) [] 0 [.watch, .watch, .control]
    (List.replicate 7 [.tick 100000000, .watch, .watch, .watch, .respond, .respond]).flatten 100000000 100000000 0
  dsimp only at hanswers
  exact hanswers (by decide +kernel) (by decide +kernel) (by decide +kernel) (by decide +kernel)

end TimedThreads
end RobotEmu
