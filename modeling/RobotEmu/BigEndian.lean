import Mathlib.Algebra.Group.Nat.Defs
import Mathlib.Data.List.Induction

/-! Words as bytes in network order, and reads of a byte string that are checked against its end.
Splitting a word shifts it down one byte at a time; joining shifts the bytes back in. The two are
inverse on words and byte strings of matching width. A checked read is `none` where the access would
leave the string. -/

abbrev Byte := BitVec 8

namespace BigEndian

variable {w : Nat}

/-- The low `n` bytes of a word, most significant first. -/
def split : Nat → BitVec w → List Byte
  | 0, _ => []
  | n + 1, v => split n (v >>> 8) ++ [v.setWidth 8]

/-- The word whose bytes, most significant first, are shifted in one after the other. -/
def join (w : Nat) (bytes : List Byte) : BitVec w :=
  bytes.foldl (fun acc byte => (acc <<< 8) ||| byte.setWidth w) 0

@[simp] theorem length_split (n : Nat) (v : BitVec w) : (split n v).length = n := by
  induction n generalizing v with
  | zero => rfl
  | succ n ih => rw [split, List.length_append, ih, List.length_singleton]

theorem join_concat (bytes : List Byte) (byte : Byte) :
    join w (bytes ++ [byte]) = (join w bytes <<< 8) ||| byte.setWidth w := by
  rw [join, List.foldl_append]
  rfl

theorem getLsbD_join_split (n : Nat) (v : BitVec w) (i : Nat) :
    (join w (split n v)).getLsbD i = (decide (i < 8 * n) && v.getLsbD i) := by
  induction n generalizing v i with
  | zero => simp [split, join]
  | succ n ih =>
      rw [split, join_concat, BitVec.getLsbD_or, BitVec.getLsbD_shiftLeft, ih,
        BitVec.getLsbD_ushiftRight, BitVec.getLsbD_setWidth, BitVec.getLsbD_setWidth]
      by_cases hw : i < w
      · by_cases hlow : i < 8
        · simp [hw, hlow, show i < 8 * (n + 1) by omega]
        · have hback : 8 + (i - 8) = i := by omega
          have hbound : i - 8 < 8 * n ↔ i < 8 * (n + 1) := by omega
          simp [hw, hlow, hback, hbound]
      · simp [hw, BitVec.getLsbD_of_ge v i (by omega)]

/-- A word of at most `n` bytes is read back from them. -/
theorem join_split {n : Nat} (hw : w ≤ 8 * n) (v : BitVec w) : join w (split n v) = v := by
  apply BitVec.eq_of_getLsbD_eq
  intro i hi
  rw [getLsbD_join_split]
  simp [show i < 8 * n by omega]

/-- A word that needs only `n` bytes is read back from its low ones. -/
theorem join_split_of_lt {n : Nat} {v : BitVec w} (h : v.toNat < 2 ^ (8 * n)) : join w (split n v) = v := by
  apply BitVec.eq_of_getLsbD_eq
  intro i _
  rw [getLsbD_join_split]
  by_cases hi : i < 8 * n
  · simp [hi]
  · have hbit : v.toNat.testBit i = false :=
      Nat.testBit_lt_two_pow (Nat.lt_of_lt_of_le h (Nat.pow_le_pow_right (by omega) (by omega)))
    simp [hi, BitVec.getLsbD, hbit]

theorem getLsbD_join_of_ge (bytes : List Byte) (i : Nat) (hi : 8 * bytes.length ≤ i) :
    (join w bytes).getLsbD i = false := by
  induction bytes using List.reverseRecOn generalizing i with
  | nil => simp [join]
  | append_singleton bytes byte ih =>
      rw [List.length_append, List.length_singleton] at hi
      rw [join_concat, BitVec.getLsbD_or, BitVec.getLsbD_shiftLeft, BitVec.getLsbD_setWidth,
        ih (i - 8) (by omega), BitVec.getLsbD_of_ge byte i (by omega)]
      simp

/-- Bytes that fit in the word are the bytes it is split into. -/
theorem split_join (bytes : List Byte) (hw : 8 * bytes.length ≤ w) :
    split bytes.length (join w bytes) = bytes := by
  induction bytes using List.reverseRecOn with
  | nil => rfl
  | append_singleton bytes byte ih =>
      rw [List.length_append, List.length_singleton] at hw ⊢
      have hrest : join w (bytes ++ [byte]) >>> 8 = join w bytes := by
        apply BitVec.eq_of_getLsbD_eq
        intro i hi
        rw [join_concat, BitVec.getLsbD_ushiftRight, BitVec.getLsbD_or, BitVec.getLsbD_shiftLeft,
          BitVec.getLsbD_setWidth, BitVec.getLsbD_of_ge byte (8 + i) (by omega), Nat.add_sub_cancel_left]
        by_cases hlarge : 8 + i < w
        · simp [hlarge]
        · simp [hlarge, getLsbD_join_of_ge bytes i (by omega)]
      have hlast : (join w (bytes ++ [byte])).setWidth 8 = byte := by
        apply BitVec.eq_of_getLsbD_eq
        intro i hi
        rw [join_concat, BitVec.getLsbD_setWidth, BitVec.getLsbD_or, BitVec.getLsbD_shiftLeft,
          BitVec.getLsbD_setWidth]
        simp [hi, show i < w by omega]
      rw [split, hrest, hlast, ih (by omega)]

end BigEndian

namespace Span

/-- The `count` bytes from `offset` on, if the string has them. -/
def subspan (bytes : List Byte) (offset count : Nat) : Option (List Byte) :=
  if offset + count ≤ bytes.length then some ((bytes.drop offset).take count) else none

theorem subspan_eq_some {bytes : List Byte} {offset count : Nat} (h : offset + count ≤ bytes.length) :
    subspan bytes offset count = some ((bytes.drop offset).take count) := if_pos h

end Span
