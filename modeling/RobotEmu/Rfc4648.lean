import RobotEmu.BigEndian

/-! The Base64 encoding of RFC 4648, section 4, from the reader's side: the alphabet of table 1, the
padding character, and a decoder that takes the text four symbols at a time. The decoder is strict: it
takes no symbol from outside the alphabet, padding at the end only, and unused bits only if they are
zero. -/

namespace Rfc4648

/-- Table 1. -/
def symbolOf (value : BitVec 6) : Byte :=
  let v := value.setWidth 8
  if v < 26 then 0x41 + v else if v < 52 then 0x61 + (v - 26) else if v < 62 then 0x30 + (v - 52)
  else if v = 62 then 0x2B else 0x2F

/-- Table 1 from symbol to value. -/
def valueOf (symbol : Byte) : Option (BitVec 6) :=
  if 0x41 ≤ symbol ∧ symbol ≤ 0x5A then some ((symbol - 0x41).setWidth 6)
  else if 0x61 ≤ symbol ∧ symbol ≤ 0x7A then some ((symbol - 0x61 + 26).setWidth 6)
  else if 0x30 ≤ symbol ∧ symbol ≤ 0x39 then some ((symbol - 0x30 + 52).setWidth 6)
  else if symbol = 0x2B then some 62
  else if symbol = 0x2F then some 63
  else none

def pad : Byte := 0x3D

/-- The 24 bits of four symbols. -/
def quantum (v0 v1 v2 v3 : BitVec 6) : BitVec 24 := v0 ++ v1 ++ v2 ++ v3

/-- The first, second and third byte of a quantum. -/
def octet (q : BitVec 24) (i : Nat) : Byte := q.extractLsb' (16 - 8 * i) 8

/-- The number of padding characters that follow the symbols of a string of some length. -/
def padding (length : Nat) : Nat := (3 - length % 3) % 3

def decode : List Byte → Option (List Byte)
  | [] => some []
  | c0 :: c1 :: c2 :: c3 :: rest => do
      let v0 ← valueOf c0
      let v1 ← valueOf c1
      if c3 = pad ∧ rest = [] then
        if c2 = pad then
          if v1.setWidth 4 = 0 then some [octet (quantum v0 v1 0 0) 0] else none
        else
          let v2 ← valueOf c2
          if v2.setWidth 2 = 0 then
            some [octet (quantum v0 v1 v2 0) 0, octet (quantum v0 v1 v2 0) 1]
          else none
      else
        let v2 ← valueOf c2
        let v3 ← valueOf c3
        let q := quantum v0 v1 v2 v3
        return octet q 0 :: octet q 1 :: octet q 2 :: (← decode rest)
  | _ => none

@[simp] theorem valueOf_symbolOf (value : BitVec 6) : valueOf (symbolOf value) = some value := by
  revert value
  decide

theorem symbolOf_ne_pad (value : BitVec 6) : symbolOf value ≠ pad := by
  revert value
  decide

theorem decode_quantum (v0 v1 v2 v3 : BitVec 6) (rest : List Byte) :
    decode (symbolOf v0 :: symbolOf v1 :: symbolOf v2 :: symbolOf v3 :: rest) = (decode rest).map fun bytes =>
      octet (quantum v0 v1 v2 v3) 0 :: octet (quantum v0 v1 v2 v3) 1 :: octet (quantum v0 v1 v2 v3) 2 :: bytes := by
  rw [decode]
  simp only [valueOf_symbolOf, symbolOf_ne_pad, false_and, if_false]
  cases decode rest <;> rfl

theorem decode_two {v0 v1 v2 : BitVec 6} (h : v2.setWidth 2 = 0) :
    decode [symbolOf v0, symbolOf v1, symbolOf v2, pad] =
      some [octet (quantum v0 v1 v2 0) 0, octet (quantum v0 v1 v2 0) 1] := by
  rw [decode]
  simp [symbolOf_ne_pad, h]

theorem decode_one {v0 v1 : BitVec 6} (h : v1.setWidth 4 = 0) :
    decode [symbolOf v0, symbolOf v1, pad, pad] = some [octet (quantum v0 v1 0 0) 0] := by
  rw [decode]
  simp [h]

end Rfc4648
