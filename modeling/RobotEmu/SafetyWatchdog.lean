import Mathlib.Data.Nat.Basic

/-! The watchdog, an operation at a time: what `start`, `stop`, `reset` and one round of the background
thread do with what they observe, and when a sequence of rounds trips it. -/

namespace RobotEmu

inductive WatchdogError where
  | alreadyRunning
  | notRunning
  deriving DecidableEq, Repr

/-- The heartbeat counter and the clock, in nanoseconds, as one operation reads them. -/
structure Observation where
  time : Int
  counter : BitVec 64
  deriving DecidableEq, Repr

structure Watchdog where
  timeout : Int
  running : Bool := false
  tripped : Bool := false
  lastSeenCounter : BitVec 64 := 0
  lastChangeTimeNs : Int := 0
  deriving DecidableEq, Repr

namespace Watchdog

def start (watchdog : Watchdog) (observed : Observation) : Except WatchdogError Unit × Watchdog :=
  if watchdog.running then (.error .alreadyRunning, watchdog)
  else
    (.ok (), { watchdog with
      running := true
      lastSeenCounter := observed.counter
      lastChangeTimeNs := observed.time
      tripped := false })

def stop (watchdog : Watchdog) : Except WatchdogError Unit × Watchdog :=
  if !watchdog.running then (.error .notRunning, watchdog)
  else (.ok (), { watchdog with running := false })

def reset (watchdog : Watchdog) (observed : Observation) : Watchdog :=
  { watchdog with
    tripped := false
    lastSeenCounter := observed.counter
    lastChangeTimeNs := observed.time }

/-- One round of `runLoop`. -/
def poll (watchdog : Watchdog) (observed : Observation) : Watchdog :=
  if observed.counter ≠ watchdog.lastSeenCounter then
    { watchdog with lastSeenCounter := observed.counter, lastChangeTimeNs := observed.time }
  else if observed.time - watchdog.lastChangeTimeNs ≥ watchdog.timeout then
    { watchdog with tripped := true }
  else watchdog

/-- The watchdog after `start` has made the first observation and `n` polls the next ones. -/
def polled (watchdog : Watchdog) (observed : Nat → Observation) : Nat → Watchdog
  | 0 => (watchdog.start (observed 0)).2
  | n + 1 => (polled watchdog observed n).poll (observed (n + 1))

end Watchdog

/-! ### Changes in a sequence of observations -/

section
variable {observed : Nat → Observation}

/-- The counter is seen for the first time, or differs from what the observation before saw. -/
def Changed (observed : Nat → Observation) : Nat → Prop
  | 0 => True
  | k + 1 => (observed (k + 1)).counter ≠ (observed k).counter

/-- The last change up to an observation. -/
structure LastChange (observed : Nat → Observation) (j last : Nat) : Prop where
  le : last ≤ j
  changed : Changed observed last
  unchanged : ∀ i, last < i → i ≤ j → ¬Changed observed i

theorem LastChange.unique {j last last' : Nat} (h : LastChange observed j last)
    (h' : LastChange observed j last') : last = last' := by
  rcases Nat.lt_trichotomy last last' with hlt | heq | hgt
  · exact absurd h'.changed (h.unchanged last' hlt h'.le)
  · exact heq
  · exact absurd h.changed (h'.unchanged last hgt h.le)

theorem LastChange.of_changed {j : Nat} (h : Changed observed j) : LastChange observed j j where
  le := Nat.le_refl j
  changed := h
  unchanged _ hlt hle := absurd hle (Nat.not_le_of_lt hlt)

theorem LastChange.succ {j last : Nat} (h : LastChange observed j last) (hnot : ¬Changed observed (j + 1)) :
    LastChange observed (j + 1) last where
  le := Nat.le_succ_of_le h.le
  changed := h.changed
  unchanged i hlt hle := by
    rcases Nat.le_or_eq_of_le_succ hle with hle | rfl
    · exact h.unchanged i hlt hle
    · exact hnot

theorem exists_lastChange (observed : Nat → Observation) (j : Nat) :
    ∃ last, LastChange observed j last := by
  induction j with
  | zero => exact ⟨0, .of_changed trivial⟩
  | succ j ih =>
      by_cases hchanged : Changed observed (j + 1)
      · exact ⟨j + 1, .of_changed hchanged⟩
      · obtain ⟨last, hlast⟩ := ih
        exact ⟨last, hlast.succ hchanged⟩

/-- A stretch without changes shows one counter. -/
theorem counter_eq_of_unchanged {i j : Nat} (h : ∀ k, i < k → k ≤ j → ¬Changed observed k) {k : Nat}
    (hik : i ≤ k) (hkj : k ≤ j) : (observed k).counter = (observed i).counter := by
  induction k, hik using Nat.le_induction with
  | base => rfl
  | succ k hik ih =>
      have hsame : (observed (k + 1)).counter = (observed k).counter :=
        Decidable.not_not.1 (h (k + 1) (Nat.lt_succ_of_le hik) hkj)
      rw [hsame]
      exact ih (Nat.le_of_succ_le hkj)

/-- A counter that never decreases and is the same at two observations has not changed in between. -/
theorem unchanged_of_counter_eq {n : Nat}
    (hcounter : ∀ i j, i ≤ j → j ≤ n → (observed i).counter ≤ (observed j).counter) {i j : Nat}
    (hjn : j ≤ n) (heq : (observed j).counter = (observed i).counter) {k : Nat} (hik : i < k) (hkj : k ≤ j) :
    ¬Changed observed k := by
  cases k with
  | zero => exact absurd hik (Nat.not_lt_zero i)
  | succ k =>
      apply Decidable.not_not.2
      have hlow := hcounter i k (Nat.le_of_lt_succ hik) (by omega)
      have hstep := hcounter k (k + 1) (Nat.le_succ k) (by omega)
      have hhigh := hcounter (k + 1) j hkj hjn
      rw [heq] at hhigh
      exact BitVec.le_antisymm (BitVec.le_trans hhigh hlow) hstep

end

namespace Watchdog

/-- The poll of an observation sees the counter of the one before, last changed at least the timeout
ago. -/
def Stalls (timeout : Int) (observed : Nat → Observation) : Nat → Prop
  | 0 => False
  | j + 1 => (observed (j + 1)).counter = (observed j).counter ∧
      ∃ last, LastChange observed (j + 1) last ∧ timeout ≤ (observed (j + 1)).time - (observed last).time

/-- What the watchdog remembers between two polls. -/
structure Remembers (watchdog : Watchdog) (timeout : Int) (observed : Nat → Observation) (n : Nat) : Prop where
  timeout_eq : watchdog.timeout = timeout
  counter : watchdog.lastSeenCounter = (observed n).counter
  time : ∀ last, LastChange observed n last → watchdog.lastChangeTimeNs = (observed last).time

theorem remembers_start {watchdog : Watchdog} (h : watchdog.running = false) (observed : Nat → Observation) :
    Remembers (watchdog.start (observed 0)).2 watchdog.timeout observed 0 ∧
      (watchdog.start (observed 0)).2.tripped = false := by
  rw [start, h, if_neg Bool.false_ne_true]
  refine ⟨⟨rfl, rfl, fun last hlast => ?_⟩, rfl⟩
  rw [Nat.le_zero.1 hlast.le]

/-- A poll remembers what it observed, and trips exactly on a stall. -/
theorem Remembers.poll {watchdog : Watchdog} {timeout : Int} {observed : Nat → Observation} {n : Nat}
    (h : Remembers watchdog timeout observed n) :
    Remembers (watchdog.poll (observed (n + 1))) timeout observed (n + 1) ∧
      ((watchdog.poll (observed (n + 1))).tripped = true ↔
        watchdog.tripped = true ∨ Stalls timeout observed (n + 1)) := by
  obtain ⟨rfl, hcounter, htime⟩ := h
  obtain ⟨last, hlast⟩ := exists_lastChange observed n
  have hlastTime := htime last hlast
  have hchanged_iff : (observed (n + 1)).counter ≠ watchdog.lastSeenCounter ↔ Changed observed (n + 1) := by
    rw [hcounter]
    rfl
  unfold Watchdog.poll
  by_cases hchanged : Changed observed (n + 1)
  · rw [if_pos (hchanged_iff.2 hchanged)]
    refine ⟨⟨rfl, rfl, fun last' hlast' => ?_⟩, ?_⟩
    · rw [hlast'.unique (.of_changed hchanged)]
    · exact ⟨.inl, fun hor => hor.resolve_right fun hstall => hchanged hstall.1⟩
  · have hnext : LastChange observed (n + 1) last := hlast.succ hchanged
    have hsame : (observed (n + 1)).counter = (observed n).counter := Decidable.not_not.1 hchanged
    have hkept : ∀ tripped,
        Remembers { watchdog with tripped := tripped } watchdog.timeout observed (n + 1) := by
      refine fun tripped => ⟨rfl, hcounter.trans hsame.symm, fun last' hlast' => ?_⟩
      rw [hlast'.unique hnext]
      exact hlastTime
    have hstall : Stalls watchdog.timeout observed (n + 1) ↔
        (observed (n + 1)).time - watchdog.lastChangeTimeNs ≥ watchdog.timeout := by
      rw [hlastTime]
      constructor
      · rintro ⟨-, last', hlast', hle⟩
        rwa [hlast'.unique hnext] at hle
      · exact fun hle => ⟨hsame, last, hnext, hle⟩
    rw [if_neg (mt hchanged_iff.1 hchanged), hstall]
    split_ifs with hle
    · exact ⟨hkept true, ⟨fun _ => .inr hle, fun _ => rfl⟩⟩
    · exact ⟨hkept watchdog.tripped, ⟨.inl, fun hor => hor.resolve_right hle⟩⟩

theorem polled_spec {watchdog : Watchdog} (h : watchdog.running = false) (observed : Nat → Observation)
    (n : Nat) : Remembers (watchdog.polled observed n) watchdog.timeout observed n ∧
      ((watchdog.polled observed n).tripped = true ↔ ∃ j, j ≤ n ∧ Stalls watchdog.timeout observed j) := by
  induction n with
  | zero =>
      obtain ⟨hremembers, hclear⟩ := remembers_start h observed
      refine ⟨hremembers, ?_⟩
      rw [polled, hclear]
      constructor
      · intro htrue
        exact absurd htrue Bool.false_ne_true
      · rintro ⟨j, hj, hstall⟩
        rw [Nat.le_zero.1 hj] at hstall
        exact hstall.elim
  | succ n ih =>
      obtain ⟨hremembers, htripped⟩ := ih
      obtain ⟨hnext, hpoll⟩ := hremembers.poll
      refine ⟨hnext, ?_⟩
      rw [polled, hpoll, htripped]
      constructor
      · rintro (⟨j, hj, hstall⟩ | hstall)
        · exact ⟨j, Nat.le_succ_of_le hj, hstall⟩
        · exact ⟨n + 1, Nat.le_refl _, hstall⟩
      · rintro ⟨j, hj, hstall⟩
        rcases Nat.le_or_eq_of_le_succ hj with hj | rfl
        · exact .inl ⟨j, hj, hstall⟩
        · exact .inr hstall

/-- A stall is a stretch of observations of one counter that spans the timeout. -/
theorem exists_span_of_stalls {timeout : Int} {observed : Nat → Observation} {j : Nat}
    (h : Stalls timeout observed j) :
    ∃ i, i < j ∧ (∀ k, i ≤ k → k ≤ j → (observed k).counter = (observed i).counter) ∧
      timeout ≤ (observed j).time - (observed i).time := by
  cases j with
  | zero => exact h.elim
  | succ j =>
      obtain ⟨hsame, last, hlast, hle⟩ := h
      have hlt : last < j + 1 := by
        apply Nat.lt_of_le_of_ne hlast.le
        rintro rfl
        exact hlast.changed hsame
      exact ⟨last, hlt, fun k hik hkj => counter_eq_of_unchanged hlast.unchanged hik hkj, hle⟩

/-- With a counter that never decreases, any two observations of it a timeout apart make a stall. -/
theorem stalls_of_span {timeout : Int} {observed : Nat → Observation} {n : Nat}
    (htime : ∀ i j, i ≤ j → j ≤ n → (observed i).time ≤ (observed j).time)
    (hcounter : ∀ i j, i ≤ j → j ≤ n → (observed i).counter ≤ (observed j).counter) {i j : Nat}
    (hij : i < j) (hjn : j ≤ n) (heq : (observed j).counter = (observed i).counter)
    (hspan : timeout ≤ (observed j).time - (observed i).time) : Stalls timeout observed j := by
  obtain ⟨last, hlast⟩ := exists_lastChange observed j
  have hunchanged : ∀ k, i < k → k ≤ j → ¬Changed observed k := fun k hik hkj =>
    unchanged_of_counter_eq hcounter hjn heq hik hkj
  have hbefore : last ≤ i := by
    by_contra hafter
    exact hunchanged last (Nat.lt_of_not_le hafter) hlast.le hlast.changed
  have hearlier := htime last i hbefore (by omega)
  cases j with
  | zero => exact absurd hij (Nat.not_lt_zero i)
  | succ j =>
      have hsame := Decidable.not_not.1 (hunchanged (j + 1) hij (Nat.le_refl _))
      exact ⟨hsame, last, hlast, by omega⟩

/-- After `n` polls the watchdog is tripped exactly if one of them was a stall. When the counter never
decreases, a trip shows a span of the timeout without an advance, every observed span trips, and the trip
stays. -/
theorem tripped_polled_iff (watchdog : Watchdog) (h : watchdog.running = false)
    (observed : Nat → Observation) (n : Nat)
    (htime : ∀ i j, i ≤ j → j ≤ n → (observed i).time ≤ (observed j).time) :
    ((watchdog.polled observed n).tripped = true ↔ ∃ j, j ≤ n ∧ Stalls watchdog.timeout observed j) ∧
    ((∀ i j, i ≤ j → j ≤ n → (observed i).counter ≤ (observed j).counter) →
      ((watchdog.polled observed n).tripped = true →
        ∃ i j, i < j ∧ j ≤ n ∧ (∀ k, i ≤ k → k ≤ j → (observed k).counter = (observed i).counter) ∧
          watchdog.timeout ≤ (observed j).time - (observed i).time) ∧
      (∀ i j, i < j → j ≤ n → (observed j).counter = (observed i).counter →
        watchdog.timeout ≤ (observed j).time - (observed i).time →
        (watchdog.polled observed n).tripped = true)) ∧
    ((watchdog.polled observed n).tripped = true →
      ∀ m, n ≤ m → (watchdog.polled observed m).tripped = true) := by
  have hiff := (polled_spec h observed n).2
  refine ⟨hiff, fun hcounter => ⟨fun htripped => ?_, fun i j hij hjn heq hspan => ?_⟩,
    fun htripped m hnm => ?_⟩
  · obtain ⟨j, hjn, hstall⟩ := hiff.1 htripped
    obtain ⟨i, hij, hsame, hspan⟩ := exists_span_of_stalls hstall
    exact ⟨i, j, hij, hjn, hsame, hspan⟩
  · exact hiff.2 ⟨j, hjn, stalls_of_span htime hcounter hij hjn heq hspan⟩
  · obtain ⟨j, hjn, hstall⟩ := hiff.1 htripped
    exact (polled_spec h observed m).2.2 ⟨j, Nat.le_trans hjn hnm, hstall⟩

/-- A heartbeat that beats once and stops, polled every ten nanoseconds. -/
theorem tripped_polled_iff_once :
    (((⟨20, false, false, 0, 0⟩ : Watchdog).polled (fun i => ⟨10 * i, if i = 0 then 0 else 1⟩) 3).tripped =
        true ↔
      ∃ j, j ≤ 3 ∧ Stalls 20 (fun i => ⟨10 * i, if i = 0 then 0 else 1⟩) j) :=
  (tripped_polled_iff ⟨20, false, false, 0, 0⟩ rfl (fun i => ⟨10 * i, if i = 0 then 0 else 1⟩) 3
    fun i j hij _ => by
      show (10 * i : Int) ≤ 10 * j
      omega).1

end Watchdog
end RobotEmu
