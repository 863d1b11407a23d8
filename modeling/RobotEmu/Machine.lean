import Mathlib.Data.List.Basic

/-! Machines that take items one after the other, and the rules for what holds along their runs. A
step lemma says what one item does from a state where the invariant holds; each rule below turns it
into a statement about every run. -/

namespace Machine

variable {σ ι : Type*} (next : σ → ι → σ)

/-- The state after taking every item in turn. -/
def run (s : σ) (items : List ι) : σ := items.foldl next s

/-- Every state of the run, the first one included, satisfies `p`. -/
def Throughout (p : σ → Prop) : σ → List ι → Prop
  | s, [] => p s
  | s, i :: items => p s ∧ Throughout p (next s i) items

/-- Every item of the run, in the state it is taken from, satisfies `q`. -/
def Along (q : σ → ι → Prop) : σ → List ι → Prop
  | _, [] => True
  | s, i :: items => q s i ∧ Along q (next s i) items

/-- The states some run from `start` ends in. -/
def Reachable (start s : σ) : Prop := ∃ items, run next start items = s

instance decidableThroughout {p : σ → Prop} [DecidablePred p] :
    ∀ s items, Decidable (Throughout next p s items)
  | s, [] => inferInstanceAs (Decidable (p s))
  | s, i :: items =>
      letI : Decidable (Throughout next p (next s i) items) := decidableThroughout (next s i) items
      inferInstanceAs (Decidable (p s ∧ Throughout next p (next s i) items))

instance decidableAlong {q : σ → ι → Prop} [∀ s i, Decidable (q s i)] :
    ∀ s items, Decidable (Along next q s items)
  | _, [] => inferInstanceAs (Decidable True)
  | s, i :: items =>
      letI : Decidable (Along next q (next s i) items) := decidableAlong (next s i) items
      inferInstanceAs (Decidable (q s i ∧ Along next q (next s i) items))

variable {next}

@[simp] theorem run_cons (s : σ) (i : ι) (items : List ι) :
    run next s (i :: items) = run next (next s i) items := rfl

theorem run_concat (s : σ) (items more : List ι) :
    run next s (items ++ more) = run next (run next s items) more := List.foldl_append

theorem Reachable.refl (s : σ) : Reachable next s s := ⟨[], rfl⟩

theorem Reachable.step {start s : σ} (h : Reachable next start s) (i : ι) :
    Reachable next start (next s i) := by
  obtain ⟨items, rfl⟩ := h
  exact ⟨items ++ [i], run_concat start items [i]⟩

/-- What every item preserves holds in every reachable state. -/
theorem Reachable.invariant {I : σ → Prop} {start s : σ} (h : Reachable next start s)
    (hstart : I start) (hstep : ∀ s i, I s → I (next s i)) : I s := by
  obtain ⟨items, rfl⟩ := h
  induction items generalizing start with
  | nil => exact hstart
  | cons i items ih => exact ih (hstep start i hstart)

/-- What holds of every item taken from a state of the invariant holds along the run, as long as the
items meet the condition `q` under which the invariant is kept. -/
theorem Along.of_invariant {I : σ → Prop} {q r : σ → ι → Prop}
    (hstep : ∀ s i, I s → q s i → I (next s i) ∧ r s i) {s : σ} {items : List ι} (hs : I s)
    (hq : Along next q s items) : Along next r s items := by
  induction items generalizing s with
  | nil => trivial
  | cons i items ih =>
      obtain ⟨hinv, hr⟩ := hstep s i hs hq.1
      exact ⟨hr, ih hinv hq.2⟩

theorem Along.of_forall {q : σ → ι → Prop} (h : ∀ s i, q s i) (s : σ) (items : List ι) :
    Along next q s items := by
  induction items generalizing s with
  | nil => trivial
  | cons i items ih => exact ⟨h s i, ih (next s i)⟩

/-- A condition on the items alone. -/
theorem along_iff_forall {q : ι → Prop} {s : σ} {items : List ι} :
    Along next (fun _ => q) s items ↔ ∀ i ∈ items, q i := by
  induction items generalizing s with
  | nil => simp [Along]
  | cons i items ih => rw [Along, List.forall_mem_cons, ih]

theorem along_append {q : σ → ι → Prop} {s : σ} {before later : List ι} :
    Along next q s (before ++ later) ↔ Along next q s before ∧ Along next q (run next s before) later := by
  induction before generalizing s with
  | nil => exact ⟨fun h => ⟨trivial, h⟩, And.right⟩
  | cons i before ih => exact (and_congr_right fun _ => ih).trans and_assoc.symm

/-- Conditions that agree in the states of the invariant hold along the same runs. -/
theorem along_congr {I : σ → Prop} {q r : σ → ι → Prop} (hinv : ∀ s i, I s → I (next s i))
    (hiff : ∀ s i, I s → (q s i ↔ r s i)) {s : σ} (hs : I s) (items : List ι) :
    Along next q s items ↔ Along next r s items := by
  constructor
  · exact Along.of_invariant (fun s i hI hq => ⟨hinv s i hI, (hiff s i hI).1 hq⟩) hs
  · exact Along.of_invariant (fun s i hI hr => ⟨hinv s i hI, (hiff s i hI).2 hr⟩) hs

theorem Throughout.head {p : σ → Prop} {s : σ} {items : List ι} (h : Throughout next p s items) :
    p s := by
  cases items with
  | nil => exact h
  | cons i items => exact h.1

theorem Throughout.last {p : σ → Prop} {s : σ} {items : List ι} (h : Throughout next p s items) :
    p (run next s items) := by
  induction items generalizing s with
  | nil => exact h
  | cons i items ih => exact ih h.2

theorem Throughout.mono {p p' : σ → Prop} (h : ∀ s, p s → p' s) {s : σ} {items : List ι}
    (hp : Throughout next p s items) : Throughout next p' s items := by
  induction items generalizing s with
  | nil => exact h s hp
  | cons i items ih => exact ⟨h s hp.1, ih hp.2⟩

theorem throughout_of_invariant {I : σ → Prop} (hstep : ∀ s i, I s → I (next s i)) {s : σ}
    {items : List ι} (hs : I s) : Throughout next I s items := by
  induction items generalizing s with
  | nil => exact hs
  | cons i items ih => exact ⟨hs, ih (hstep s i hs)⟩

/-- Items that keep the invariant wherever they meet the condition `q`. -/
theorem Along.throughout {I : σ → Prop} {q : σ → ι → Prop} (hstep : ∀ s i, I s → q s i → I (next s i)) {s : σ}
    {items : List ι} (hs : I s) (hq : Along next q s items) : Throughout next I s items := by
  induction items generalizing s with
  | nil => exact hs
  | cons i items ih => exact ⟨hs, ih (hstep s i hs hq.1) hq.2⟩

/-- What is needed of an item for `p` to hold after it is needed of every item of a run in `p`. -/
theorem Throughout.along {p : σ → Prop} {q : σ → ι → Prop} (hstep : ∀ s i, p (next s i) → q s i) {s : σ}
    {items : List ι} (h : Throughout next p s items) : Along next q s items := by
  induction items generalizing s with
  | nil => trivial
  | cons i items ih => exact ⟨hstep s i h.2.head, ih h.2⟩

/-- When one item keeps `p` exactly if it meets `q`, a run stays in `p` exactly if all its items meet
`q`. The side invariant `A` is kept as long as the run is in `p`, whatever the item. -/
theorem throughout_iff_along {A p : σ → Prop} {q : σ → ι → Prop}
    (hstep : ∀ s i, A s → p s → A (next s i) ∧ (p (next s i) ↔ q s i)) {s : σ}
    {items : List ι} (hA : A s) (hp : p s) :
    Throughout next p s items ↔ Along next q s items := by
  induction items generalizing s with
  | nil => exact ⟨fun _ => trivial, fun _ => hp⟩
  | cons i items ih =>
      obtain ⟨hA', hiff⟩ := hstep s i hA hp
      constructor
      · intro h
        have hp' := h.2.head
        exact ⟨hiff.1 hp', (ih hA' hp').1 h.2⟩
      · intro h
        have hp' := hiff.2 h.1
        exact ⟨hp, (ih hA' hp').2 h.2⟩

/-- An item of a run along which `q` holds, taken from the state before it. -/
theorem Along.of_split {q : σ → ι → Prop} {s : σ} {before later : List ι} {i : ι}
    (h : Along next q s (before ++ i :: later)) : q (run next s before) i := by
  induction before generalizing s with
  | nil => exact h.1
  | cons j before ih => exact ih h.2

/-- What does not hold at first and holds in the end has come with some item. -/
theorem exists_item_of_run {p : σ → Prop} {s : σ} {items : List ι} (hs : ¬p s) (h : p (run next s items)) :
    ∃ before i later, items = before ++ i :: later ∧ ¬p (run next s before) ∧
      p (next (run next s before) i) := by
  induction items generalizing s with
  | nil => exact absurd h hs
  | cons i items ih =>
      by_cases hnext : p (next s i)
      · exact ⟨[], i, items, rfl, hs, hnext⟩
      · obtain ⟨before, j, later, rfl, hbefore, hj⟩ := ih hnext h
        exact ⟨i :: before, j, later, rfl, hbefore, hj⟩

/-- What only the items of one kind change is as the last of them left it. -/
theorem last_change {α : Type*} {view : σ → α} {I : σ → Prop} {q : σ → ι → Prop} (hinv : ∀ s i, I s → I (next s i))
    (hkeep : ∀ s i, I s → ¬q s i → view (next s i) = view s) {s : σ} (hs : I s) (items : List ι) :
    (Along next (fun s i => ¬q s i) s items ∧ view (run next s items) = view s) ∨
    ∃ before i later, items = before ++ i :: later ∧ q (run next s before) i ∧
      Along next (fun s i => ¬q s i) (next (run next s before) i) later ∧
      view (run next s items) = view (next (run next s before) i) := by
  induction items generalizing s with
  | nil => exact .inl ⟨trivial, rfl⟩
  | cons i items ih =>
      rcases ih (hinv s i hs) with ⟨hnone, hview⟩ | ⟨before, j, later, rfl, hj, hnone, hview⟩
      · by_cases hi : q s i
        · exact .inr ⟨[], i, items, rfl, hi, hnone, hview⟩
        · exact .inl ⟨⟨hi, hnone⟩, hview.trans (hkeep s i hs hi)⟩
      · exact .inr ⟨i :: before, j, later, rfl, hj, hnone, hview⟩

/-! ### Histories

The items a run accepts, in order, and what a state says of them: when every way into the states `armed`
is an accepted item of one kind, and an accepted item of another kind leads out of them, then a run that
ends in such a state has accepted the first kind with none of the second after it. -/

section Histories

variable {accepts : σ → ι → Prop} [∀ s i, Decidable (accepts s i)]

/-- The items of a run that the state they are taken from accepts. -/
def accepted (next : σ → ι → σ) (accepts : σ → ι → Prop) [∀ s i, Decidable (accepts s i)] :
    σ → List ι → List ι
  | _, [] => []
  | s, i :: items => (if accepts s i then [i] else []) ++ accepted next accepts (next s i) items

/-- An item of kind `p` with none of kind `q` after it. -/
def Since (p q : ι → Prop) (history : List ι) : Prop :=
  ∃ before i later, history = before ++ i :: later ∧ p i ∧ ∀ j ∈ later, ¬q j

theorem Since.of_last {p q : ι → Prop} (history : List ι) {i : ι} (h : p i) :
    Since p q (history ++ [i]) := ⟨history, i, [], rfl, h, nofun⟩

theorem Since.concat {p q : ι → Prop} {history : List ι} (h : Since p q history) {i : ι} (hi : ¬q i) :
    Since p q (history ++ [i]) := by
  obtain ⟨before, j, later, rfl, hj, hlater⟩ := h
  refine ⟨before, j, later ++ [i], by rw [List.append_assoc, List.cons_append], hj, ?_⟩
  intro k hk
  rcases List.mem_append.1 hk with hk | hk
  · exact hlater k hk
  · rwa [List.mem_singleton.1 hk]

/-- A property `R` of histories that items of kind `p` establish and items not of kind `q` keep holds
whenever the run is in `armed`. -/
theorem accepted_of_armed {armed : σ → Prop} {p q : ι → Prop} {R : List ι → Prop}
    (hp : ∀ history i, p i → R (history ++ [i]))
    (hq : ∀ history i, ¬q i → R history → R (history ++ [i]))
    (hstep : ∀ s i, armed (next s i) →
      accepts s i ∧ p i ∨ armed s ∧ (accepts s i → ¬q i)) {s : σ} (history : List ι)
    (hs : armed s → R history) (items : List ι) (h : armed (run next s items)) :
    R (history ++ accepted next accepts s items) := by
  induction items generalizing s history with
  | nil =>
      rw [accepted, List.append_nil]
      exact hs h
  | cons i items ih =>
      rw [accepted, ← List.append_assoc]
      refine ih _ (fun hnext => ?_) h
      rcases hstep s i hnext with ⟨haccepts, hi⟩ | ⟨harmed, hi⟩
      · rw [if_pos haccepts]
        exact hp history i hi
      · split_ifs with haccepts
        · exact hq history i (hi haccepts) (hs harmed)
        · rw [List.append_nil]
          exact hs harmed

/-- From a state that is not armed, only items of kind `p` arm. -/
theorem since_of_armed (armed : σ → Prop) {p q : ι → Prop}
    (hstep : ∀ s i, armed (next s i) → accepts s i ∧ p i ∨ armed s ∧ (accepts s i → ¬q i)) {s : σ}
    (hs : ¬armed s) (items : List ι) (h : armed (run next s items)) :
    Since p q (accepted next accepts s items) :=
  accepted_of_armed (R := Since p q) (fun history _ hi => .of_last history hi)
    (fun _ _ hi hsince => hsince.concat hi) hstep [] (fun harmed => absurd harmed hs) items h

/-- From any state, an item of kind `q` is followed by one of kind `p` before the run is armed again. -/
theorem since_last_of_armed (armed : σ → Prop) {p q : ι → Prop}
    (hstep : ∀ s i, armed (next s i) → accepts s i ∧ p i ∨ armed s ∧ (accepts s i → ¬q i)) {s : σ}
    (items : List ι) (h : armed (run next s items))
    (hitem : ∃ i ∈ accepted next accepts s items, q i) :
    Since p q (accepted next accepts s items) := by
  refine accepted_of_armed (R := fun history => (∃ i ∈ history, q i) → Since p q history)
    (fun history _ hi _ => .of_last history hi) (fun history i hi hsince hsome => ?_) hstep []
    (fun _ hsome => ?_) items h hitem
  · obtain ⟨j, hj, hqj⟩ := hsome
    rcases List.mem_append.1 hj with hj | hj
    · exact (hsince ⟨j, hj, hqj⟩).concat hi
    · rw [List.mem_singleton.1 hj] at hqj
      exact absurd hqj hi
  · obtain ⟨j, hj, -⟩ := hsome
    exact absurd hj List.not_mem_nil

end Histories

/-! ### A machine in step with another

Where every item of a machine is a row of items of a second one, the second one comes along any run of the
first, and what it keeps to throughout, the first does. -/

section Simulations

variable {τ κ : Type*} {next' : τ → κ → τ} {R : σ → τ → Prop} {means : σ → ι → List κ}

/-- The items of a run, each as the row it stands for in the state it is taken from. -/
def translated (next : σ → ι → σ) (means : σ → ι → List κ) : σ → List ι → List κ
  | _, [] => []
  | s, i :: items => means s i ++ translated next means (next s i) items

theorem simulates_run (hstep : ∀ s t i, R s t → R (next s i) (run next' t (means s i))) {s : σ} {t : τ}
    (h : R s t) (items : List ι) : R (run next s items) (run next' t (translated next means s items)) := by
  induction items generalizing s t with
  | nil => exact h
  | cons i items ih =>
      rw [translated, run_concat]
      exact ih (hstep s t i h)

end Simulations

/-! ### What the latest item says -/

/-- What the latest item of a history that says something says. -/
def latest {β : Type*} (tells : ι → Option β) (history : List ι) : Option β :=
  history.reverse.findSome? tells

@[simp] theorem latest_nil {β : Type*} (tells : ι → Option β) : latest tells [] = none := rfl

theorem latest_concat {β : Type*} (tells : ι → Option β) (history : List ι) (i : ι) :
    latest tells (history ++ [i]) = (tells i).or (latest tells history) := by
  rw [latest, List.reverse_concat, List.findSome?_cons, latest]
  cases tells i <;> rfl

theorem latest_cons {β : Type*} (tells : ι → Option β) (i : ι) (history : List ι) :
    latest tells (i :: history) = (latest tells history).or (tells i) := by
  rw [latest, List.reverse_cons, List.findSome?_append, latest]
  cases hi : tells i <;> simp [hi]

/-! ### Progress

A measure that items lower says how many of them a run needs. With several parties, each taking items
of its own, an item either lowers the measure or leaves every party that could lower it as able as it
was; then any stretch of the run in which each party takes an item lowers the measure. -/

/-- What every item preserves holds at the end of a run. -/
theorem run_invariant {I : σ → Prop} (hstep : ∀ s i, I s → I (next s i)) {s : σ} (hs : I s)
    (items : List ι) : I (run next s items) :=
  Reachable.invariant ⟨items, rfl⟩ hs hstep

theorem measure_run_le {I : σ → Prop} {w : σ → Nat} {p : ι → Bool}
    (hinv : ∀ s i, I s → I (next s i))
    (hstep : ∀ s i, I s → w (next s i) ≤ w s - if p i then 1 else 0) {s : σ} (hs : I s)
    (items : List ι) : w (run next s items) ≤ w s - items.countP p := by
  induction items generalizing s with
  | nil => exact Nat.le_refl _
  | cons i items ih =>
      have hfirst := hstep s i hs
      have hlater := ih (hinv s i hs)
      rw [run_cons, List.countP_cons]
      omega

theorem run_flatten (s : σ) (rounds : List (List ι)) :
    run next s rounds.flatten = run (run next) s rounds := List.foldl_flatten

section Parties

variable {κ : Type*} {I : σ → Prop} {w : σ → Nat} {able : σ → κ → Prop} {taken : κ → ι → Bool}

/-- An item lowers the measure, or keeps it; then it is of no party that was able, and each of them is
still able. -/
def Progresses (next : σ → ι → σ) (w : σ → Nat) (able : σ → κ → Prop) (taken : κ → ι → Bool)
    (s : σ) (i : ι) : Prop :=
  w (next s i) < w s ∨ w (next s i) = w s ∧ ∀ k, able s k → taken k i = false ∧ able (next s i) k

theorem measure_run_mono (hinv : ∀ s i, I s → I (next s i))
    (hstep : ∀ s i, I s → Progresses next w able taken s i) {s : σ} (hs : I s) (items : List ι) :
    w (run next s items) ≤ w s := by
  refine (run_invariant (I := fun t => I t ∧ w t ≤ w s) (fun t i ht => ?_) ⟨hs, Nat.le_refl _⟩ items).2
  refine ⟨hinv t i ht.1, ?_⟩
  have hitem : w (next t i) ≤ w t := by
    rcases hstep t i ht.1 with hlt | ⟨heq, -⟩
    · exact Nat.le_of_lt hlt
    · exact Nat.le_of_eq heq
  exact Nat.le_trans hitem ht.2

theorem measure_run_lt (hinv : ∀ s i, I s → I (next s i))
    (hstep : ∀ s i, I s → Progresses next w able taken s i) {s : σ} (hs : I s) {k : κ} (hk : able s k)
    {items : List ι} (hitems : items.any (taken k)) : w (run next s items) < w s := by
  induction items generalizing s with
  | nil => exact nomatch hitems
  | cons i items ih =>
      rw [run_cons]
      rcases hstep s i hs with hlt | ⟨heq, hkeep⟩
      · calc w (run next (next s i) items) ≤ w (next s i) :=
              measure_run_mono hinv hstep (hinv s i hs) items
          _ < w s := hlt
      · obtain ⟨hother, hk'⟩ := hkeep k hk
        rw [List.any_cons, hother, Bool.false_or] at hitems
        rw [← heq]
        exact ih (hinv s i hs) hk' hitems

/-- As long as the measure is positive some party is able to lower it, so each stretch in which every
party takes an item lowers it by one. -/
theorem measure_rounds_le (hinv : ∀ s i, I s → I (next s i))
    (hstep : ∀ s i, I s → Progresses next w able taken s i)
    (hable : ∀ s, I s → 0 < w s → ∃ k, able s k) {fair : List ι → Bool}
    (hfair : ∀ items, fair items → ∀ k, items.any (taken k)) {s : σ} (hs : I s)
    (rounds : List (List ι)) : w (run next s rounds.flatten) ≤ w s - rounds.countP fair := by
  have hkeep : ∀ s (items : List ι), I s → I (run next s items) :=
    fun s items hs => run_invariant hinv hs items
  have hround : ∀ s (items : List ι), I s →
      w (run next s items) ≤ w s - if fair items then 1 else 0 := by
    intro s items hs
    have hmono := measure_run_mono hinv hstep hs items
    split_ifs with hf
    · by_cases hpos : 0 < w s
      · obtain ⟨k, hk⟩ := hable s hs hpos
        have hlt := measure_run_lt hinv hstep hs hk (hfair items hf k)
        omega
      · omega
    · exact hmono
  rw [run_flatten]
  exact measure_run_le hkeep hround hs rounds

end Parties

end Machine
