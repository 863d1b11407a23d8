import RobotEmu.FromChars

/-! What `std::format` prints of a whole number, of a double in fixed notation and of a text in a field of
some width. A double is rounded from its exact value. What is printed of a whole number is read back. -/

namespace StdFormat

/-- A whole number in base ten. -/
def digits (n : Nat) : List Byte := (Nat.toDigits 10 n).map fun c => BitVec.ofNat 8 c.toNat

/-- `{:<width}`. -/
def left (width : Nat) (text : List Byte) : List Byte := text ++ List.replicate (width - text.length) 0x20

/-- `{:>width}`. -/
def right (width : Nat) (text : List Byte) : List Byte := List.replicate (width - text.length) 0x20 ++ text

/-- The whole number nearest to `n / d`, and half way between two the even one. -/
def nearest (n d : Nat) : Nat :=
  if 2 * (n % d) < d then n / d else if d < 2 * (n % d) then n / d + 1 else n / d + n / d % 2

/-- `{:.precision f}` of a number of units, `10 ^ precision` of which make one. -/
def point (precision units : Nat) : List Byte :=
  let fraction := digits (units % 10 ^ precision)
  digits (units / 10 ^ precision) ++ 0x2E :: (List.replicate (precision - fraction.length) 0x30 ++ fraction)

/-- `{:.precision f}` of a double, where the precision is not zero. -/
def fixed (precision : Nat) (x : Binary64) : List Byte :=
  (if x.bits.msb then [0x2D] else []) ++
    match x.unpack with
    | .notANumber => FromChars.nanText
    | .infinity _ => FromChars.infText
    | .zero _ => point precision 0
    | .finite _ m e _ => point precision (nearest (m * 10 ^ precision * 2 ^ e.toNat) (2 ^ (-e).toNat))

example : fixed 2 (-(Binary64.ofInt 1 / Binary64.ofInt 8)) = [0x2D, 0x30, 0x2E, 0x31, 0x32] := by decide +kernel

theorem toNat_digit {n : Nat} {c : Char} (h : c ∈ Nat.toDigits 10 n) :
    (BitVec.ofNat 8 c.toNat).toNat = c.toNat ∧ 48 ≤ c.toNat ∧ c.toNat ≤ 57 := by
  have hdigit : c.isDigit := Nat.isDigit_of_mem_toDigits (by decide) (by decide) h
  rw [Char.isDigit, Bool.and_eq_true, decide_eq_true_iff, decide_eq_true_iff] at hdigit
  have hle : c.toNat ≤ 57 := UInt32.le_iff_toNat_le.1 hdigit.2
  refine ⟨?_, UInt32.le_iff_toNat_le.1 hdigit.1, hle⟩
  rw [BitVec.toNat_ofNat, Nat.mod_eq_of_lt (by omega)]

theorem isDigit_digits (n : Nat) : (digits n).all FromChars.isDigit := by
  rw [digits, List.all_map, List.all_eq_true]
  intro c hc
  obtain ⟨hbyte, hlo, hhi⟩ := toNat_digit hc
  rw [Function.comp_apply, FromChars.isDigit, decide_eq_true_iff, BitVec.le_def, BitVec.le_def, hbyte]
  exact ⟨hlo, hhi⟩

theorem decimal_digits (n : Nat) : FromChars.decimal (digits n) = n :=
  calc FromChars.decimal (digits n)
      = (Nat.toDigits 10 n).foldl (fun k c => 10 * k + ((BitVec.ofNat 8 c.toNat).toNat - 48)) 0 := List.foldl_map
    _ = (Nat.toDigits 10 n).foldl (fun k c => 10 * k + (c.toNat - 48)) 0 := by
        apply List.foldl_ext
        intro k c hc
        rw [(toNat_digit hc).1]
    _ = n := Nat.ofDigitChars_ten_toDigits

/-- Two numbers that are each followed by no digit are printed alike only if they are the same. -/
theorem digits_append_inj {n n' : Nat} {rest rest' : List Byte}
    (hrest : ∀ c ∈ rest.head?, FromChars.isDigit c = false)
    (hrest' : ∀ c ∈ rest'.head?, FromChars.isDigit c = false)
    (h : digits n ++ rest = digits n' ++ rest') : n = n' ∧ rest = rest' := by
  have htake := congrArg (List.takeWhile FromChars.isDigit) h
  rw [FromChars.takeWhile_digits (isDigit_digits n) hrest,
    FromChars.takeWhile_digits (isDigit_digits n') hrest'] at htake
  rw [htake] at h
  exact ⟨by rw [← decimal_digits n, htake, decimal_digits], List.append_cancel_left h⟩

end StdFormat
