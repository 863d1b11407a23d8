import Mathlib.Algebra.Order.Ring.Int
import Mathlib.Data.Finset.Max
import Mathlib.Order.Interval.Finset.Nat

/-! Sequences of moments that keep a distance: from each moment to the next passes at least a gap. No
window of time then holds more moments than gaps fit into it, and one. -/

namespace Pacing

/-- Each moment is at least `gap` after the one before. -/
def Spaced (gap : Nat) (s : Nat → Int) : Prop := ∀ k, s k + gap ≤ s (k + 1)

/-- How many of the first `n` moments fall into a window of time. -/
def inWindow (s : Nat → Int) (n : Nat) (start : Int) (length : Nat) : Finset Nat :=
  (Finset.range n).filter fun k => start ≤ s k ∧ s k ≤ start + length

variable {gap : Nat} {s : Nat → Int}

theorem Spaced.add_mul_le (h : Spaced gap s) (i j : Nat) : s i + j * gap ≤ s (i + j) := by
  induction j with
  | zero => rw [Nat.cast_zero, zero_mul, add_zero, add_zero]
  | succ j ih =>
      have hstep := h (i + j)
      calc s i + (j + 1 : Nat) * gap = s i + j * gap + gap := by
            rw [Nat.cast_succ, add_mul, one_mul, add_assoc]
        _ ≤ s (i + j) + gap := by omega
        _ ≤ s (i + (j + 1)) := hstep

theorem Spaced.card_inWindow_le (h : Spaced gap s) (hgap : 0 < gap) (n : Nat) (start : Int) (length : Nat) :
    (inWindow s n start length).card ≤ length / gap + 1 := by
  rcases (inWindow s n start length).eq_empty_or_nonempty with hempty | hne
  · rw [hempty, Finset.card_empty]
    exact Nat.zero_le _
  · obtain ⟨first, hfirst, hmin⟩ := (inWindow s n start length).exists_min_image id hne
    obtain ⟨last, hlast, hmax⟩ := (inWindow s n start length).exists_max_image id hne
    have hstart := (Finset.mem_filter.1 hfirst).2.1
    have hend := (Finset.mem_filter.1 hlast).2.2
    have hle : first ≤ last := hmin last hlast
    have hspread := h.add_mul_le first (last - first)
    rw [Nat.add_sub_cancel' hle] at hspread
    have hfits : (last - first) * gap ≤ length := by
      have hcast : (((last - first) * gap : Nat) : Int) ≤ length := by
        rw [Nat.cast_mul]
        omega
      exact Int.ofNat_le.1 hcast
    calc (inWindow s n start length).card ≤ (Finset.Icc first last).card := by
          apply Finset.card_le_card
          intro k hk
          exact Finset.mem_Icc.2 ⟨hmin k hk, hmax k hk⟩
      _ = last + 1 - first := Nat.card_Icc first last
      _ ≤ length / gap + 1 := by
          have hcount : last - first ≤ length / gap := (Nat.le_div_iff_mul_le hgap).2 hfits
          omega

end Pacing
