import RobotEmu.Rfc4648
import RobotEmu.WebSocketBase64

/-! `base64.cpp` against the standard's decoder. Three bytes are 24 bits of a word, and the code's four
shifts cut these bits into the values of four symbols; the decoder puts the values side by side again. -/

namespace RobotEmu
namespace Base64

/-- The value of the symbol that `symbol` looks up. -/
def sextet (value : BitVec 32) (shift : Nat) : BitVec 6 := (value >>> shift).setWidth 6

theorem kAlphabet_eq (v : BitVec 6) : kAlphabet.getD v.toNat 0 = Rfc4648.symbolOf v := by
  revert v
  decide

theorem symbol_eq (value : BitVec 32) (shift : Nat) :
    symbol value shift = Rfc4648.symbolOf (sextet value shift) := by
  have hmask : (value >>> shift) &&& 0x3F#32 = ((value >>> shift).setWidth 6).setWidth 32 := by
    rw [show (0x3F#32 : BitVec 32) = (BitVec.allOnes 6).setWidth 32 from rfl]
    apply BitVec.eq_of_getLsbD_eq
    intro i hi
    simp only [BitVec.getLsbD_and, BitVec.getLsbD_setWidth, BitVec.getLsbD_allOnes, hi, decide_true,
      Bool.true_and, Bool.and_comm]
  have hlt : (sextet value shift).toNat < 2 ^ 32 := Nat.lt_of_lt_of_le (BitVec.isLt _) (by decide)
  rw [symbol, hmask, ← kAlphabet_eq, BitVec.toNat_setWidth, ← sextet, Nat.mod_eq_of_lt hlt]

theorem getLsbD_sextet (value : BitVec 32) (shift i : Nat) :
    (sextet value shift).getLsbD i = (decide (i < 6) && value.getLsbD (shift + i)) := by
  rw [sextet, BitVec.getLsbD_setWidth, BitVec.getLsbD_ushiftRight]

/-- The four shifts cut the low 24 bits without a gap. -/
theorem quantum_sextets (value : BitVec 32) :
    Rfc4648.quantum (sextet value 18) (sextet value 12) (sextet value 6) (sextet value 0) =
      value.setWidth 24 := by
  apply BitVec.eq_of_getLsbD_eq
  intro i hi
  simp only [Rfc4648.quantum, BitVec.getLsbD_append, getLsbD_sextet, BitVec.getLsbD_setWidth]
  by_cases h6 : i < 6
  · simp [h6, hi]
  · by_cases h12 : i - 6 < 6
    · simp [h6, h12, hi, show 6 + (i - 6) = i by omega]
    · by_cases h18 : i - 6 - 6 < 6
      · simp [h6, h12, h18, hi, show 12 + (i - 6 - 6) = i by omega]
      · simp [h6, h12, h18, hi, show i - 6 - 6 - 6 < 6 by omega, show 18 + (i - 6 - 6 - 6) = i by omega]

/-- The word that the code builds from three bytes; a missing byte is zero. -/
def triple (b0 b1 b2 : Byte) : BitVec 32 :=
  (b0.setWidth 32 <<< 16) ||| (b1.setWidth 32 <<< 8) ||| b2.setWidth 32

theorem triple_two (b0 b1 : Byte) :
    (b0.setWidth 32 <<< 16) ||| (b1.setWidth 32 <<< 8) = triple b0 b1 0 := by
  simp [triple]

theorem triple_one (b0 : Byte) : b0.setWidth 32 <<< 16 = triple b0 0 0 := by
  simp [triple]

theorem getLsbD_triple (b0 b1 b2 : Byte) {i : Nat} (hi : i < 24) : (triple b0 b1 b2).getLsbD i =
    if i < 8 then b2.getLsbD i else if i < 16 then b1.getLsbD (i - 8) else b0.getLsbD (i - 16) := by
  simp only [triple, BitVec.getLsbD_or, BitVec.getLsbD_shiftLeft, BitVec.getLsbD_setWidth]
  by_cases h8 : i < 8
  · simp [h8, show i < 16 by omega, show i < 32 by omega]
  · by_cases h16 : i < 16
    · simp [h8, h16, BitVec.getLsbD_of_ge b2 i (by omega), show i < 32 by omega, show i - 8 < 32 by omega]
    · simp [h8, h16, BitVec.getLsbD_of_ge b2 i (by omega), BitVec.getLsbD_of_ge b1 (i - 8) (by omega),
        show i < 32 by omega, show i - 16 < 32 by omega]

theorem octets_triple (b0 b1 b2 : Byte) :
    Rfc4648.octet ((triple b0 b1 b2).setWidth 24) 0 = b0 ∧ Rfc4648.octet ((triple b0 b1 b2).setWidth 24) 1 = b1 ∧
      Rfc4648.octet ((triple b0 b1 b2).setWidth 24) 2 = b2 := by
  refine ⟨?_, ?_, ?_⟩ <;>
  · apply BitVec.eq_of_getLsbD_eq
    intro i hi
    rw [Rfc4648.octet, BitVec.getLsbD_extractLsb', BitVec.getLsbD_setWidth, getLsbD_triple _ _ _ (by omega)]
    simp [hi, show ¬ 16 + i < 8 by omega, show ¬ 8 + i < 8 by omega, show 8 + i < 16 by omega]
    try omega

/-- Where the low bits of the word are missing bytes, so are those of a symbol's value. -/
theorem getLsbD_sextet_triple_two {b0 b1 : Byte} {i : Nat} (hi : i < 2) :
    (sextet (triple b0 b1 0) 6).getLsbD i = false := by
  rw [getLsbD_sextet, getLsbD_triple _ _ _ (by omega)]
  simp [show 6 + i < 8 by omega]

theorem getLsbD_sextet_triple_one {b0 : Byte} {i : Nat} (hi : i < 4) :
    (sextet (triple b0 0 0) 12).getLsbD i = false := by
  rw [getLsbD_sextet, getLsbD_triple _ _ _ (by omega)]
  simp [show ¬ 12 + i < 8 by omega, show 12 + i < 16 by omega]

theorem sextet_triple_two (b0 b1 : Byte) : sextet (triple b0 b1 0) 0 = 0 := by
  apply BitVec.eq_of_getLsbD_eq
  intro i hi
  rw [getLsbD_sextet, getLsbD_triple _ _ _ (by omega)]
  simp [show i < 8 by omega]

theorem sextet_triple_one (b0 : Byte) : sextet (triple b0 0 0) 6 = 0 := by
  apply BitVec.eq_of_getLsbD_eq
  intro i hi
  rw [getLsbD_sextet, getLsbD_triple _ _ _ (by omega)]
  by_cases h8 : 6 + i < 8
  · simp [h8]
  · simp [h8, show 6 + i < 16 by omega]

/-- The values of the symbols that the code writes, without the padding. -/
def sextets : List Byte → List (BitVec 6)
  | b0 :: b1 :: b2 :: rest =>
      let value := triple b0 b1 b2
      [sextet value 18, sextet value 12, sextet value 6, sextet value 0] ++ sextets rest
  | [b0, b1] => let value := triple b0 b1 0; [sextet value 18, sextet value 12, sextet value 6]
  | [b0] => let value := triple b0 0 0; [sextet value 18, sextet value 12]
  | [] => []

theorem base64Encode_eq (input : List Byte) : base64Encode input =
    (sextets input).map Rfc4648.symbolOf ++ List.replicate (Rfc4648.padding input.length) Rfc4648.pad := by
  induction input using base64Encode.induct with
  | case1 b0 b1 b2 rest ih =>
      have hpadding : Rfc4648.padding (b0 :: b1 :: b2 :: rest).length = Rfc4648.padding rest.length := by
        simp only [Rfc4648.padding, List.length_cons]
        omega
      rw [base64Encode, ih, hpadding]
      simp [sextets, symbol_eq, triple]
  | case2 b0 b1 =>
      rw [base64Encode, triple_two]
      simp [sextets, symbol_eq, Rfc4648.padding, pad, Rfc4648.pad]
  | case3 b0 =>
      rw [base64Encode, triple_one]
      simp [sextets, symbol_eq, Rfc4648.padding, pad, Rfc4648.pad, List.replicate_succ]
  | case4 => rfl

/-- The unused low bits of the last symbol are zero. -/
theorem getLsbD_last_sextet (input : List Byte) :
    ∀ last ∈ (sextets input).getLast?, ∀ bit < 2 * Rfc4648.padding input.length, last.getLsbD bit = false := by
  induction input using base64Encode.induct with
  | case1 b0 b1 b2 rest ih =>
      have hpadding : Rfc4648.padding (b0 :: b1 :: b2 :: rest).length = Rfc4648.padding rest.length := by
        simp only [Rfc4648.padding, List.length_cons]
        omega
      intro last hlast bit hbit
      rw [hpadding] at hbit
      rw [sextets, List.getLast?_append, Option.mem_def] at hlast
      cases hrest : (sextets rest).getLast? with
      | some value =>
          rw [hrest] at hlast
          exact ih last (hrest.trans hlast) bit hbit
      | none =>
          -- Nothing follows the last full group, so no bit is unused.
          have hnil : rest = [] := by
            rcases rest with - | ⟨b3, - | ⟨b4, - | ⟨b5, rest⟩⟩⟩ <;> simp [sextets] at hrest ⊢
          subst hnil
          exact absurd hbit (Nat.not_lt_zero bit)
  | case2 b0 b1 =>
      intro last hlast bit hbit
      rw [sextets, Option.mem_def] at hlast
      simp only [List.getLast?_cons_cons, List.getLast?_singleton, Option.some.injEq] at hlast
      subst hlast
      exact getLsbD_sextet_triple_two hbit
  | case3 b0 =>
      intro last hlast bit hbit
      rw [sextets, Option.mem_def] at hlast
      simp only [List.getLast?_cons_cons, List.getLast?_singleton, Option.some.injEq] at hlast
      subst hlast
      exact getLsbD_sextet_triple_one hbit
  | case4 =>
      intro last hlast
      cases hlast

theorem decode_base64Encode (input : List Byte) : Rfc4648.decode (base64Encode input) = some input := by
  induction input using base64Encode.induct with
  | case1 b0 b1 b2 rest ih =>
      obtain ⟨h0, h1, h2⟩ := octets_triple b0 b1 b2
      rw [base64Encode, ← triple]
      simp only [symbol_eq, List.cons_append, List.nil_append]
      rw [Rfc4648.decode_quantum, ih, quantum_sextets, h0, h1, h2]
      rfl
  | case2 b0 b1 =>
      obtain ⟨h0, h1, -⟩ := octets_triple b0 b1 0
      have hlow : (sextet (triple b0 b1 0) 6).setWidth 2 = 0 := by
        apply BitVec.eq_of_getLsbD_eq
        intro i hi
        rw [BitVec.getLsbD_setWidth, getLsbD_sextet_triple_two hi]
        simp
      rw [base64Encode, triple_two]
      simp only [symbol_eq]
      rw [show pad = Rfc4648.pad from rfl, Rfc4648.decode_two hlow, ← sextet_triple_two b0 b1,
        quantum_sextets, h0, h1]
  | case3 b0 =>
      obtain ⟨h0, -, -⟩ := octets_triple b0 0 0
      have hlow : (sextet (triple b0 0 0) 12).setWidth 4 = 0 := by
        apply BitVec.eq_of_getLsbD_eq
        intro i hi
        rw [BitVec.getLsbD_setWidth, getLsbD_sextet_triple_one hi]
        simp
      have hquantum : Rfc4648.quantum (sextet (triple b0 0 0) 18) (sextet (triple b0 0 0) 12) 0 0 =
          (triple b0 0 0).setWidth 24 := by
        rw [← quantum_sextets, sextet_triple_one, sextet_triple_two]
      rw [base64Encode, triple_one]
      simp only [symbol_eq]
      rw [show pad = Rfc4648.pad from rfl, Rfc4648.decode_one hlow, hquantum, h0]
  | case4 => rfl

end Base64

/-- The encoding of every byte string is canonical and the standard's decoder reads the string back. -/
theorem base64Encode_rfc4648 :
    (∀ x : List Byte, (base64Encode x).length = 4 * ((x.length + 2) / 3) ∧
      (∃ symbols : List (BitVec 6), base64Encode x =
          symbols.map Rfc4648.symbolOf ++ List.replicate (Rfc4648.padding x.length) Rfc4648.pad ∧
        ∀ last ∈ symbols.getLast?, ∀ bit < 2 * Rfc4648.padding x.length, last.getLsbD bit = false) ∧
      Rfc4648.decode (base64Encode x) = some x) ∧ Function.Injective base64Encode := by
  refine ⟨fun x => ⟨?_, ⟨Base64.sextets x, Base64.base64Encode_eq x, Base64.getLsbD_last_sextet x⟩,
    Base64.decode_base64Encode x⟩, ?_⟩
  · rw [length_base64Encode, Nat.mul_comm]
  · intro x y hxy
    have hx := Base64.decode_base64Encode x
    rw [hxy, Base64.decode_base64Encode] at hx
    exact (Option.some.inj hx).symm

end RobotEmu
