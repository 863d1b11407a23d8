import RobotEmu.BigEndian
import RobotEmu.Binary64

/-! The byte-order helpers of the frame codec and of the payload codecs. Both sources write them by
hand with shifts; the two spellings of `writeU16BE` and `readU16BE` are the same. A writer returns the
bytes it appends, a reader takes a span and is `none` where it would read past the span's end. -/

namespace RobotEmu

/-- The bytes of a string, all of whose characters are ASCII. -/
def bytesOf (text : String) : List Byte := text.toList.map fun c => BitVec.ofNat 8 c.toNat

def writeU16BE (value : BitVec 16) : List Byte :=
  [((value >>> 8) &&& 0xFF#16).setWidth 8, (value &&& 0xFF#16).setWidth 8]

def writeU32BE (value : BitVec 32) : List Byte :=
  [((value >>> 24) &&& 0xFF#32).setWidth 8, ((value >>> 16) &&& 0xFF#32).setWidth 8,
    ((value >>> 8) &&& 0xFF#32).setWidth 8, (value &&& 0xFF#32).setWidth 8]

/-- `for (int shift = 56; shift >= 0; shift -= 8)` over the bits of the double. -/
def writeF64BE (value : Binary64) : List Byte :=
  [56, 48, 40, 32, 24, 16, 8, 0].map fun shift =>
    ((value.bits >>> (shift : Nat)) &&& 0xFF#64).setWidth 8

def readU16BE (bytes : List Byte) : Option (BitVec 16) := do
  let b0 ← bytes[0]?
  let b1 ← bytes[1]?
  return (b0.setWidth 16 <<< 8) ||| b1.setWidth 16

def readU32BE (bytes : List Byte) : Option (BitVec 32) := do
  let b0 ← bytes[0]?
  let b1 ← bytes[1]?
  let b2 ← bytes[2]?
  let b3 ← bytes[3]?
  return (b0.setWidth 32 <<< 24) ||| (b1.setWidth 32 <<< 16) ||| (b2.setWidth 32 <<< 8)
    ||| b3.setWidth 32

/-- `for (int i = 0; i < 8; ++i)`, each byte shifted in below the ones before it. -/
def readF64BE (bytes : List Byte) : Option Binary64 := do
  let bits ← (List.range 8).foldlM (fun (bits : BitVec 64) i => do
    let byte ← bytes[i]?
    return (bits <<< 8) ||| byte.setWidth 64) 0
  return ⟨bits⟩

/-! ### The writers split and the readers join -/

theorem length_bytesOf (text : String) : (bytesOf text).length = text.length := by
  rw [bytesOf, List.length_map, String.length_toList]

theorem and_byteMask (byte : Byte) : byte &&& 255#8 = byte := BitVec.and_allOnes

theorem writeU16BE_eq (value : BitVec 16) : writeU16BE value = BigEndian.split 2 value := by
  simp [writeU16BE, BigEndian.split, BitVec.setWidth_and, and_byteMask]

theorem writeU32BE_eq (value : BitVec 32) : writeU32BE value = BigEndian.split 4 value := by
  simp [writeU32BE, BigEndian.split, BitVec.setWidth_and, and_byteMask, ← BitVec.shiftRight_add]

theorem writeF64BE_eq (value : Binary64) : writeF64BE value = BigEndian.split 8 value.bits := by
  simp [writeF64BE, BigEndian.split, BitVec.setWidth_and, and_byteMask, ← BitVec.shiftRight_add]

theorem readU16BE_eq {bytes : List Byte} (h : bytes.length = 2) :
    readU16BE bytes = some (BigEndian.join 16 bytes) := by
  obtain ⟨b0, b1, rfl⟩ := List.length_eq_two.1 h
  simp [readU16BE, BigEndian.join]

theorem readU32BE_eq {bytes : List Byte} (h : bytes.length = 4) :
    readU32BE bytes = some (BigEndian.join 32 bytes) := by
  match bytes, h with
  | [b0, b1, b2, b3], _ =>
      simp [readU32BE, BigEndian.join, BitVec.shiftLeft_or_distrib, ← BitVec.shiftLeft_add]

theorem readF64BE_eq {bytes : List Byte} (h : bytes.length = 8) :
    readF64BE bytes = some ⟨BigEndian.join 64 bytes⟩ := by
  match bytes, h with
  | [b0, b1, b2, b3, b4, b5, b6, b7], _ => rfl

theorem readU16BE_writeU16BE (value : BitVec 16) : readU16BE (writeU16BE value) = some value := by
  rw [readU16BE_eq rfl, writeU16BE_eq, BigEndian.join_split (by omega)]

theorem readF64BE_writeF64BE (value : Binary64) : readF64BE (writeF64BE value) = some value := by
  rw [readF64BE_eq rfl, writeF64BE_eq, BigEndian.join_split (by omega)]

end RobotEmu
