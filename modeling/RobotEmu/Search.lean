import Mathlib.Data.List.Basic

/-! The first occurrence of a text within another. A search that finds it in a part of a text that has
arrived so far finds the first occurrence in the whole, however the text goes on; and until the part
takes in the whole of that occurrence, the search finds nothing. -/

namespace Search

variable {α : Type*} {needle text : List α} {pos : Nat}

/-- The needle occurs at the position, and nowhere before it. -/
structure FirstAt (needle text : List α) (pos : Nat) : Prop where
  occurs : needle <+: text.drop pos
  first : ∀ i < pos, ¬ needle <+: text.drop i

section
variable [DecidableEq α]

/-- Where the needle first occurs. -/
def find (needle : List α) : List α → Option Nat
  | [] => if needle = [] then some 0 else none
  | a :: text => if needle <+: a :: text then some 0 else (find needle text).map (· + 1)

/-- Where the needle first occurs from a position on. -/
def findFrom (needle text : List α) (pos : Nat) : Option Nat :=
  (find needle (text.drop pos)).map (· + pos)

end

theorem FirstAt.zero (h : needle <+: text) : FirstAt needle text 0 := ⟨h, fun _ hi => absurd hi (by omega)⟩

theorem firstAt_cons {a : α} (h : ¬ needle <+: a :: text) :
    FirstAt needle (a :: text) (pos + 1) ↔ FirstAt needle text pos := by
  constructor
  · intro hfirst
    refine ⟨hfirst.occurs, ?_⟩
    intro i hi
    exact hfirst.first (i + 1) (by omega)
  · intro hfirst
    refine ⟨hfirst.occurs, ?_⟩
    intro i hi
    cases i with
    | zero => exact h
    | succ i => exact hfirst.first i (by omega)

theorem FirstAt.eq {pos' : Nat} (h : FirstAt needle text pos) (h' : FirstAt needle text pos') :
    pos = pos' := by
  by_contra hne
  rcases Nat.lt_or_gt_of_ne hne with hlt | hlt
  · exact h'.first pos hlt h.occurs
  · exact h.first pos' hlt h'.occurs

/-- An occurrence that ends within the text is one in the text, whatever follows. -/
theorem prefix_drop_append_iff {more : List α} (h : pos + needle.length ≤ text.length) :
    needle <+: (text ++ more).drop pos ↔ needle <+: text.drop pos := by
  rw [List.drop_append_of_le_length (by omega)]
  constructor
  · intro hstarts
    exact List.prefix_of_prefix_length_le hstarts (List.prefix_append _ _)
      (by rw [List.length_drop]; omega)
  · exact fun hstarts => hstarts.trans (List.prefix_append _ _)

/-- The first occurrence in the whole is the first one in a part that takes it in, and conversely. -/
theorem firstAt_append_iff {more : List α} (h : pos + needle.length ≤ text.length) :
    FirstAt needle (text ++ more) pos ↔ FirstAt needle text pos := by
  have hearlier (i : Nat) (hi : i < pos) :
      needle <+: (text ++ more).drop i ↔ needle <+: text.drop i := prefix_drop_append_iff (by omega)
  constructor
  · intro hfirst
    refine ⟨(prefix_drop_append_iff h).1 hfirst.occurs, ?_⟩
    exact fun i hi hoccurs => hfirst.first i hi ((hearlier i hi).2 hoccurs)
  · intro hfirst
    refine ⟨(prefix_drop_append_iff h).2 hfirst.occurs, ?_⟩
    exact fun i hi hoccurs => hfirst.first i hi ((hearlier i hi).1 hoccurs)

theorem FirstAt.length_le (h : FirstAt needle text pos) : pos + needle.length ≤ text.length := by
  by_cases hpos : pos ≤ text.length
  · have hlength := h.occurs.length_le
    rw [List.length_drop] at hlength
    omega
  · have hempty : needle = [] := by
      have hoccurs := h.occurs
      rw [List.drop_eq_nil_of_le (by omega)] at hoccurs
      exact List.prefix_nil.1 hoccurs
    refine absurd ?_ (h.first 0 (by omega))
    rw [hempty]
    exact List.nil_prefix

/-- Looking from a position on that is not behind the first occurrence. -/
theorem FirstAt.drop (h : FirstAt needle text pos) {start : Nat} (hle : start ≤ pos) :
    FirstAt needle (text.drop start) (pos - start) := by
  constructor
  · rw [List.drop_drop, Nat.add_sub_cancel' hle]
    exact h.occurs
  · intro i hi
    rw [List.drop_drop]
    exact h.first (start + i) (by omega)

theorem firstAt_singleton {a : α} {front : List α} (h : a ∉ front) (rest : List α) :
    FirstAt [a] (front ++ a :: rest) front.length := by
  constructor
  · rw [List.drop_left]
    exact ⟨rest, rfl⟩
  · intro i hi hoccurs
    rw [List.drop_append_of_le_length (Nat.le_of_lt hi), List.drop_eq_getElem_cons hi,
      List.cons_append, List.cons_prefix_cons] at hoccurs
    exact h (hoccurs.1 ▸ List.getElem_mem hi)

theorem exists_occurs_of_infix (h : needle <:+: text) :
    ∃ i, i + needle.length ≤ text.length ∧ needle <+: text.drop i := by
  obtain ⟨before, after, rfl⟩ := h
  refine ⟨before.length, ?_, ?_⟩
  · simp only [List.length_append]
    omega
  · rw [List.append_assoc, List.drop_left]
    exact List.prefix_append needle after

section
variable [DecidableEq α]

theorem find_eq_some_iff : find needle text = some pos ↔ FirstAt needle text pos := by
  induction text generalizing pos with
  | nil =>
      rw [find]
      split_ifs with hneedle
      · subst hneedle
        constructor
        · intro hpos
          obtain rfl := Option.some.inj hpos
          exact .zero List.nil_prefix
        · exact fun hfirst => congrArg some (FirstAt.eq (.zero List.nil_prefix) hfirst)
      · constructor
        · exact fun hpos => nomatch hpos
        · intro hfirst
          have hoccurs := hfirst.occurs
          rw [List.drop_nil] at hoccurs
          exact absurd (List.prefix_nil.1 hoccurs) hneedle
  | cons a text ih =>
      rw [find]
      split_ifs with hstarts
      · constructor
        · intro hpos
          obtain rfl := Option.some.inj hpos
          exact .zero hstarts
        · exact fun hfirst => congrArg some (FirstAt.eq (.zero hstarts) hfirst)
      · cases pos with
        | zero =>
            constructor
            · intro hfind
              obtain ⟨_, _, hzero⟩ := Option.map_eq_some_iff.1 hfind
              omega
            · exact fun hfirst => absurd hfirst.occurs hstarts
        | succ pos =>
            rw [firstAt_cons hstarts, ← ih, Option.map_eq_some_iff]
            constructor
            · rintro ⟨found, hfind, hsucc⟩
              obtain rfl : found = pos := by omega
              exact hfind
            · exact fun hfind => ⟨pos, hfind, rfl⟩

theorem findFrom_eq_some_iff {start : Nat} :
    findFrom needle text start = some pos ↔
      ∃ offset, FirstAt needle (text.drop start) offset ∧ offset + start = pos := by
  rw [findFrom, Option.map_eq_some_iff]
  simp only [find_eq_some_iff]

/-- Searching what has arrived of a text. -/
theorem find_of_firstAt_append {more : List α} (h : FirstAt needle (text ++ more) pos) :
    find needle text = if pos + needle.length ≤ text.length then some pos else none := by
  split_ifs with hlength
  · exact find_eq_some_iff.2 ((firstAt_append_iff hlength).1 h)
  · rw [Option.eq_none_iff_forall_ne_some]
    intro found hfind
    have hfirst := find_eq_some_iff.1 hfind
    have hsame := h.eq ((firstAt_append_iff hfirst.length_le).2 hfirst)
    have hle := hfirst.length_le
    omega

/-- What does not occur in the whole is not found in a part. -/
theorem find_of_not_firstAt {more : List α} (h : ∀ pos, ¬FirstAt needle (text ++ more) pos) :
    find needle text = none := by
  rw [Option.eq_none_iff_forall_ne_some]
  intro pos hpos
  have hfirst := find_eq_some_iff.1 hpos
  exact h pos ((firstAt_append_iff hfirst.length_le).2 hfirst)

end
end Search
