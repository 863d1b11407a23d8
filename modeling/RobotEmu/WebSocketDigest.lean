import RobotEmu.Fips180
import RobotEmu.WebSocketSha1

/-! `sha1.cpp` against the standard. Padding, the schedule, a round and the chaining are each compared
with the standard's; the standard numbers the blocks, the code the bytes they start at. -/

namespace RobotEmu
namespace Sha1

/-! ### Padding -/

/-- The loop appends as many bytes as it is the first time to find room for the length after. -/
theorem pushZeros_eq {zeros : Nat} {message : List Byte} (hstop : (message.length + zeros) % 64 = 56)
    (hgo : ∀ pushed < zeros, (message.length + pushed) % 64 ≠ 56) :
    pushZeros message = message ++ List.replicate zeros 0x00 := by
  induction zeros generalizing message with
  | zero =>
      rw [pushZeros, if_neg (by simpa using hstop)]
      simp
  | succ zeros ih =>
      have hgoes : message.length % 64 ≠ 56 := by simpa using hgo 0 (by omega)
      have hlength : (message ++ [0x00]).length = message.length + 1 := by simp
      have hrest : pushZeros (message ++ [0x00]) = message ++ [0x00] ++ List.replicate zeros 0x00 := by
        apply ih
        · rwa [hlength, Nat.add_assoc, Nat.add_comm 1]
        · intro pushed hpushed
          rw [hlength, Nat.add_assoc, Nat.add_comm 1]
          exact hgo (pushed + 1) (by omega)
      rw [pushZeros, if_pos hgoes, hrest, List.append_assoc, List.singleton_append, ← List.replicate_succ]

/-- The guard of the loop after it has pushed some bytes. -/
theorem padding_guard (input : List Byte) (pushed : Nat) :
    (input ++ [0x80] ++ List.replicate pushed (0x00 : Byte)).length % 64 = 56 ↔
      (input.length + 1 + pushed + 8) % 64 = 0 := by
  simp only [List.length_append, List.length_singleton, List.length_replicate]
  omega

theorem pushZeros_marker (input : List Byte) : pushZeros (input ++ [0x80]) =
    input ++ [0x80] ++ List.replicate (Fips180.zeroBytes input.length) 0x00 := by
  apply pushZeros_eq
  · have hspec := Fips180.zeroBytes_spec input.length
    rw [List.length_append, List.length_singleton]
    omega
  · intro pushed hpushed hstop
    rw [List.length_append, List.length_singleton] at hstop
    have hle : Fips180.zeroBytes input.length ≤ pushed := Fips180.zeroBytes_le (by omega)
    omega

theorem preprocess_eq (message : Fips180.Message) : preprocess message.bytes = Fips180.pad message := by
  -- The bit length is below the word's range, so the product of the code does not wrap.
  have hbits : BitVec.ofNat 64 message.bytes.length * 8 =
      BitVec.ofNatLT (8 * message.bytes.length) message.bitLength_lt := by
    rw [BitVec.ofNatLT_eq_ofNat, Nat.mul_comm, BitVec.ofNat_mul]
    rfl
  rw [Fips180.pad, ← hbits, ← pushZeros_marker]
  exact congrArg _ (writeF64BE_eq ⟨BitVec.ofNat 64 message.bytes.length * 8⟩)

/-! ### Words and schedule -/

theorem rotateLeft_eq {bits : Nat} (hbits : bits < 32) (value : BitVec 32) :
    rotateLeft value bits = value.rotateLeft bits := by
  rw [BitVec.rotateLeft_def, Nat.mod_eq_of_lt hbits]
  rfl

theorem take_four (bytes : List Byte) (offset : Nat) (h : offset + 4 ≤ bytes.length) :
    (bytes.drop offset).take 4 =
      [bytes.getD offset 0, bytes.getD (offset + 1) 0, bytes.getD (offset + 2) 0, bytes.getD (offset + 3) 0] := by
  rw [List.drop_eq_getElem_cons (show offset < bytes.length by omega),
    List.drop_eq_getElem_cons (show offset + 1 < bytes.length by omega),
    List.drop_eq_getElem_cons (show offset + 2 < bytes.length by omega),
    List.drop_eq_getElem_cons (show offset + 3 < bytes.length by omega)]
  simp only [List.take_succ_cons, List.take_zero]
  rw [List.getD_eq_getElem, List.getD_eq_getElem, List.getD_eq_getElem, List.getD_eq_getElem]

theorem wordAt_eq {message : List Byte} {i t : Nat} (ht : t < 16) (h : 64 * i + 64 ≤ message.length) :
    wordAt message (64 * i + t * 4) = Fips180.word (Fips180.block message i) t := by
  have hbytes : ((Fips180.block message i).drop (4 * t)).take 4 = (message.drop (64 * i + t * 4)).take 4 := by
    rw [Fips180.block, List.drop_take, List.take_take, List.drop_drop, Nat.min_eq_left (by omega),
      Nat.mul_comm 4]
  rw [Fips180.word, hbytes, take_four _ _ (by omega)]
  simp [wordAt, BigEndian.join, BitVec.shiftLeft_or_distrib, ← BitVec.shiftLeft_add]

/-- The words of the schedule after some passes of its second loop. -/
def expanded (message : List Byte) (chunkStart passes : Nat) : List (BitVec 32) :=
  (List.range' 16 passes).foldl (fun w i => w ++ [rotateLeft (w.getD (i - 3) 0 ^^^ w.getD (i - 8) 0 ^^^
      w.getD (i - 14) 0 ^^^ w.getD (i - 16) 0) 1])
    ((List.range 16).map fun i => wordAt message (chunkStart + i * 4))

theorem expanded_succ (message : List Byte) (chunkStart passes : Nat) :
    expanded message chunkStart (passes + 1) = expanded message chunkStart passes ++
      [rotateLeft ((expanded message chunkStart passes).getD (16 + passes - 3) 0 ^^^
        (expanded message chunkStart passes).getD (16 + passes - 8) 0 ^^^
        (expanded message chunkStart passes).getD (16 + passes - 14) 0 ^^^
        (expanded message chunkStart passes).getD (16 + passes - 16) 0) 1] := by
  rw [expanded, List.range'_1_concat, List.foldl_append]
  rfl

theorem length_expanded (message : List Byte) (chunkStart passes : Nat) :
    (expanded message chunkStart passes).length = 16 + passes := by
  induction passes with
  | zero => rfl
  | succ passes ih =>
      rw [expanded_succ, List.length_append, ih]
      rfl

theorem getD_expanded {message : List Byte} {i : Nat} (h : 64 * i + 64 ≤ message.length) (passes : Nat) :
    ∀ t < 16 + passes, (expanded message (64 * i) passes).getD t 0 = Fips180.W (Fips180.block message i) t := by
  induction passes with
  | zero =>
      intro t ht
      have hword : (expanded message (64 * i) 0).getD t 0 = wordAt message (64 * i + t * 4) := by
        simp [expanded, List.getElem?_map, List.getElem?_range ht]
      rw [hword, wordAt_eq ht h, Fips180.W_of_le (by omega)]
  | succ passes ih =>
      intro t ht
      have hlength := length_expanded message (64 * i) passes
      rw [expanded_succ]
      by_cases hold : t < 16 + passes
      · rw [List.getD_append _ _ _ _ (by omega), ih t hold]
      · have ht : t = 16 + passes := by omega
        subst ht
        rw [List.getD_append_right _ _ _ _ (by omega), hlength, Nat.sub_self, List.getD_cons_zero,
          rotateLeft_eq (by omega), ih (16 + passes - 3) (by omega), ih (16 + passes - 8) (by omega),
          ih (16 + passes - 14) (by omega), ih (16 + passes - 16) (by omega),
          Fips180.W_of_lt (show 15 < 16 + passes by omega)]

theorem getD_schedule {message : List Byte} {i t : Nat} (h : 64 * i + 64 ≤ message.length) (ht : t < 80) :
    (schedule message (64 * i)).getD t 0 = Fips180.W (Fips180.block message i) t :=
  getD_expanded h 64 t ht

/-! ### Rounds and chunks -/

def Registers.words (r : Registers) : Fips180.Words := ⟨r.a, r.b, r.c, r.d, r.e⟩

theorem ch_eq (x y z : BitVec 32) : (x &&& y) ||| (~~~x &&& z) = Fips180.Ch x y z := by
  apply BitVec.eq_of_getLsbD_eq
  intro i hi
  simp only [Fips180.Ch, BitVec.getLsbD_or, BitVec.getLsbD_and, BitVec.getLsbD_not, BitVec.getLsbD_xor, hi]
  cases x.getLsbD i <;> simp

theorem maj_eq (x y z : BitVec 32) :
    (x &&& y) ||| (x &&& z) ||| (y &&& z) = Fips180.Maj x y z := by
  apply BitVec.eq_of_getLsbD_eq
  intro i hi
  simp only [Fips180.Maj, BitVec.getLsbD_or, BitVec.getLsbD_and, BitVec.getLsbD_xor]
  cases x.getLsbD i <;> cases y.getLsbD i <;> simp

theorem round_words (w : List (BitVec 32)) (r : Registers) (t : Nat) : (round w r t).words =
    ⟨r.a.rotateLeft 5 + Fips180.f t r.b r.c r.d + r.e + Fips180.K t + w.getD t 0, r.a, r.b.rotateLeft 30,
      r.c, r.d⟩ := by
  have h5 := rotateLeft_eq (show 5 < 32 by omega) r.a
  have h30 := rotateLeft_eq (show 30 < 32 by omega) r.b
  -- The code asks for `t < 20`, the standard for `t ≤ 19`, and so at each of the three changes.
  by_cases h19 : t ≤ 19
  · simp [round, Registers.words, Fips180.f, Fips180.K, h5, h30, ch_eq, h19, show t < 20 by omega]
  · by_cases h39 : t ≤ 39
    · simp [round, Registers.words, Fips180.f, Fips180.K, h5, h30, Fips180.Parity, h19, h39,
        show ¬ t < 20 by omega, show t < 40 by omega]
    · by_cases h59 : t ≤ 59
      · simp [round, Registers.words, Fips180.f, Fips180.K, h5, h30, maj_eq, h19, h39, h59,
          show ¬ t < 20 by omega, show ¬ t < 40 by omega, show t < 60 by omega]
      · simp [round, Registers.words, Fips180.f, Fips180.K, h5, h30, Fips180.Parity, h19, h39, h59,
          show ¬ t < 20 by omega, show ¬ t < 40 by omega, show ¬ t < 60 by omega]

theorem rounds_words {message : List Byte} {i : Nat} (h : 64 * i + 64 ≤ message.length) (r : Registers)
    (t : Nat) (ht : t ≤ 80) :
    ((List.range t).foldl (round (schedule message (64 * i))) r).words =
      Fips180.working r.words (Fips180.block message i) t := by
  induction t with
  | zero => rfl
  | succ t ih =>
      rw [List.range_succ, List.foldl_append, List.foldl_cons, List.foldl_nil, round_words,
        getD_schedule h (by omega), Fips180.working, ← ih (by omega)]
      rfl

theorem processChunk_words {message : List Byte} {i : Nat} (h : 64 * i + 64 ≤ message.length) (r : Registers) :
    (processChunk message r (64 * i)).words =
      (Fips180.working r.words (Fips180.block message i) 80).add r.words := by
  rw [← rounds_words h r 80 (by omega)]
  simp only [processChunk, Registers.words, Fips180.Words.add, BitVec.add_comm]

theorem chunks_words (message : List Byte) (blocks : Nat) (h : 64 * blocks ≤ message.length) :
    (((List.range blocks).map (· * 64)).foldl (processChunk message) initial).words =
      Fips180.hash message blocks := by
  induction blocks with
  | zero => rfl
  | succ blocks ih =>
      rw [List.range_succ, List.map_append, List.foldl_append, List.map_singleton, List.foldl_cons,
        List.foldl_nil, Nat.mul_comm, processChunk_words (by omega), ih (by omega), Fips180.hash]

theorem digest_eq (r : Registers) : r.digest = BigEndian.split 4 r.a ++ BigEndian.split 4 r.b ++
    BigEndian.split 4 r.c ++ BigEndian.split 4 r.d ++ BigEndian.split 4 r.e := by
  simp only [← writeU32BE_eq]
  rfl

theorem chunkStarts_eq {message : List Byte} (h : message.length % 64 = 0) :
    chunkStarts message = (List.range (message.length / 64)).map (· * 64) := by
  rw [chunkStarts, show (message.length + 63) / 64 = message.length / 64 by omega]

end Sha1

open Sha1

/-- On every message whose bit length fits 64 bits the digest is the standard's. The padding loop pushes
the smallest number of zero bytes that makes the message whole chunks, and no chunk reads past its end. -/
theorem sha1_fips180 (input : List Byte) (hlength : input.length < 2 ^ 61) :
    sha1 input = Fips180.digest ⟨input, hlength⟩ ∧
      (∃ zeros < 64, pushZeros (input ++ [0x80]) = input ++ [0x80] ++ List.replicate zeros 0x00 ∧
        (input ++ [0x80] ++ List.replicate zeros (0x00 : Byte)).length % 64 = 56 ∧
        ∀ pushed < zeros, (input ++ [0x80] ++ List.replicate pushed (0x00 : Byte)).length % 64 ≠ 56) ∧
      ∀ chunkStart ∈ chunkStarts (preprocess input), ∀ i < 16, ∀ byte < 4,
        chunkStart + i * 4 + byte < (preprocess input).length := by
  have hmod := length_preprocess_mod input
  refine ⟨?_, ⟨Fips180.zeroBytes input.length, Fips180.zeroBytes_lt _, pushZeros_marker input, ?_, ?_⟩, ?_⟩
  · have hwords := chunks_words (preprocess input) ((preprocess input).length / 64) (by omega)
    have hpad := preprocess_eq ⟨input, hlength⟩
    rw [sha1, chunkStarts_eq hmod, digest_eq, Fips180.digest, ← hpad, ← hwords]
    rfl
  · exact (padding_guard input _).2 (Fips180.zeroBytes_spec _)
  · intro pushed hpushed hstop
    have hle := Fips180.zeroBytes_le ((padding_guard input pushed).1 hstop)
    omega
  · intro chunkStart hmem i hi byte hbyte
    rw [chunkStarts_eq hmod, List.mem_map] at hmem
    obtain ⟨block, hblock, rfl⟩ := hmem
    have hlt := List.mem_range.1 hblock
    omega

/-- The lengths around the end of a chunk, where the padding takes one more of them. -/
theorem sha1_fips180_boundary :
    sha1 (List.replicate 55 0x61) = Fips180.digest ⟨List.replicate 55 0x61, by simp⟩ ∧
      sha1 (List.replicate 56 0x61) = Fips180.digest ⟨List.replicate 56 0x61, by simp⟩ :=
  ⟨(sha1_fips180 (List.replicate 55 0x61) (by simp)).1, (sha1_fips180 (List.replicate 56 0x61) (by simp)).1⟩

end RobotEmu
