import Mathlib.Algebra.Order.Field.Basic
import RobotEmu.Binary64Order

/-! The arithmetic a numeric program asks of its number type, so that one program can be read over
doubles and over exact numbers: the four operations, negation, comparisons that compute, and the
conversion of integers. The standard library's `min`, `max` and `clamp` are written with `<` alone, as
C++ defines them, which settles what they give on values that are not comparable. -/

/-- Numbers a program can compute with. -/
class Arith (F : Type*) extends Add F, Sub F, Mul F, Div F, Neg F, LT F, LE F where
  ofInt : Int → F
  decidableLt : ∀ x y : F, Decidable (x < y)
  decidableLe : ∀ x y : F, Decidable (x ≤ y)

namespace Arith

instance {F : Type*} [Arith F] (x y : F) : Decidable (x < y) := decidableLt x y

instance {F : Type*} [Arith F] (x y : F) : Decidable (x ≤ y) := decidableLe x y

instance : Arith Binary64 where
  ofInt := Binary64.ofInt
  decidableLt := Binary64.decidableLt
  decidableLe := Binary64.decidableLe

/-- Exact arithmetic in an ordered field. -/
instance (priority := low) exact (K : Type*) [Field K] [LinearOrder K] : Arith K where
  ofInt n := n
  decidableLt := inferInstance
  decidableLe := inferInstance

variable {F : Type*} [Arith F]

/-- `==`: neither number is greater, so that zero equals zero of the other sign. -/
def StdEq (a b : F) : Prop := a ≤ b ∧ b ≤ a

instance (a b : F) : Decidable (StdEq a b) := inferInstanceAs (Decidable (_ ∧ _))

/-- `std::abs`, apart from the sign of a zero and of what is not a number. -/
def stdAbs (a : F) : F := if a < ofInt 0 then -a else a

def stdMin (a b : F) : F := if b < a then b else a

def stdMax (a b : F) : F := if a < b then b else a

def stdClamp (v lo hi : F) : F := if v < lo then lo else if hi < v then hi else v

end Arith

/-! ### Clamping exact numbers -/

namespace Arith

variable {K : Type*} [Field K] [LinearOrder K]

theorem ofInt_eq (n : Int) : (ofInt n : K) = n := rfl

theorem ofInt_zero : (ofInt 0 : K) = 0 := Int.cast_zero

theorem stdEq_iff {a b : K} : StdEq a b ↔ a = b := le_antisymm_iff.symm

theorem stdClamp_eq_max_min {v lo hi : K} (h : lo ≤ hi) : stdClamp v lo hi = max lo (min v hi) := by
  unfold stdClamp
  split_ifs with hlo hhi
  · rw [min_eq_left (hlo.le.trans h), max_eq_left hlo.le]
  · rw [min_eq_right hhi.le, max_eq_right h]
  · rw [min_eq_left (not_lt.1 hhi), max_eq_right (not_lt.1 hlo)]

variable [IsStrictOrderedRing K]

theorem stdAbs_eq (a : K) : stdAbs a = |a| := by
  rw [stdAbs, ofInt_zero]
  split_ifs with h
  · exact (abs_of_neg h).symm
  · exact (abs_of_nonneg (not_lt.1 h)).symm

theorem abs_stdClamp_le {v bound : K} (h : 0 ≤ bound) : |stdClamp v (-bound) bound| ≤ bound := by
  unfold stdClamp
  split_ifs with hlo hhi
  · rw [abs_neg, abs_of_nonneg h]
  · rw [abs_of_nonneg h]
  · exact abs_le.2 ⟨not_lt.1 hlo, not_lt.1 hhi⟩

/-- Clamping brings a number no farther from those between the bounds. -/
theorem abs_stdClamp_sub_le {v w lo hi : K} (hlo : lo ≤ v) (hhi : v ≤ hi) :
    |stdClamp w lo hi - v| ≤ |w - v| := by
  unfold stdClamp
  split_ifs with hbelow habove
  · rw [abs_of_nonpos (sub_nonpos.2 hlo), abs_of_nonpos (sub_nonpos.2 (hbelow.le.trans hlo))]
    exact neg_le_neg (sub_le_sub_right hbelow.le v)
  · rw [abs_of_nonneg (sub_nonneg.2 hhi), abs_of_nonneg (sub_nonneg.2 (hhi.trans habove.le))]
    exact sub_le_sub_right habove.le v
  · exact le_refl _

theorem stdMin_zero (v : K) : stdMin v (ofInt 0) ≤ 0 ∧ |stdMin v (ofInt 0)| ≤ |v| := by
  unfold stdMin
  split_ifs with h
  · rw [ofInt_zero, abs_zero]
    exact ⟨le_refl _, abs_nonneg v⟩
  · exact ⟨ofInt_zero (K := K) ▸ not_lt.1 h, le_refl _⟩

theorem stdMax_zero (v : K) : 0 ≤ stdMax v (ofInt 0) ∧ |stdMax v (ofInt 0)| ≤ |v| := by
  unfold stdMax
  split_ifs with h
  · rw [ofInt_zero, abs_zero]
    exact ⟨le_refl _, abs_nonneg v⟩
  · exact ⟨ofInt_zero (K := K) ▸ not_lt.1 h, le_refl _⟩

end Arith

/-- `std::numbers::pi`. -/
def Numbers.pi : Binary64 := ⟨0x400921FB54442D18#64⟩

/-! ### Clamping doubles

A clamped number is a number whatever the bounds, and lies between them when they are in order. -/

namespace Binary64

open Arith

theorem not_isNaN_stdClamp {v lo hi : Binary64} (hv : ¬v.IsNaN) : ¬(stdClamp v lo hi).IsNaN := by
  unfold stdClamp
  split_ifs with hlo hhi
  · exact (not_isNaN_of_le (le_of_lt hlo)).2
  · exact (not_isNaN_of_le (le_of_lt hhi)).1
  · exact hv

theorem stdClamp_mem {v lo hi : Binary64} (hv : ¬v.IsNaN) (hle : lo ≤ hi) :
    lo ≤ stdClamp v lo hi ∧ stdClamp v lo hi ≤ hi := by
  obtain ⟨hlo, hhi⟩ := not_isNaN_of_le hle
  unfold stdClamp
  split_ifs with hbelow habove
  · exact ⟨le_self hlo, hle⟩
  · exact ⟨hle, le_self hhi⟩
  · exact ⟨le_of_not_lt hv hlo hbelow, le_of_not_lt hhi hv habove⟩

end Binary64
