import Mathlib.Data.Nat.Find
import RobotEmu.BigEndian

/-! SHA-1 as FIPS 180-4 defines it, on messages of whole bytes: the padding of section 5.1.1, the blocks
of 5.2.1, and the hash computation of 6.1.2 with its recursive message schedule. Nothing is meant to be
run here: a program's digest is compared with `digest`. -/

namespace Fips180

def Ch (x y z : BitVec 32) : BitVec 32 := (x &&& y) ^^^ (~~~x &&& z)

def Parity (x y z : BitVec 32) : BitVec 32 := x ^^^ y ^^^ z

def Maj (x y z : BitVec 32) : BitVec 32 := (x &&& y) ^^^ (x &&& z) ^^^ (y &&& z)

/-- The function of round `t`. -/
def f (t : Nat) : BitVec 32 → BitVec 32 → BitVec 32 → BitVec 32 :=
  if t ≤ 19 then Ch else if t ≤ 39 then Parity else if t ≤ 59 then Maj else Parity

/-- The constant of round `t`. -/
def K (t : Nat) : BitVec 32 :=
  if t ≤ 19 then 0x5A827999 else if t ≤ 39 then 0x6ED9EBA1 else if t ≤ 59 then 0x8F1BBCDC else 0xCA62C1D6

theorem exists_zeros (length : Nat) : ∃ zeros, (length + 1 + zeros + 8) % 64 = 0 :=
  ⟨(55 + 64 - length % 64) % 64, by omega⟩

/-- The smallest number of zero bytes that, with the marker and the length, completes a block. -/
def zeroBytes (length : Nat) : Nat := Nat.find (exists_zeros length)

theorem zeroBytes_spec (length : Nat) : (length + 1 + zeroBytes length + 8) % 64 = 0 :=
  Nat.find_spec (exists_zeros length)

theorem zeroBytes_le {length zeros : Nat} (h : (length + 1 + zeros + 8) % 64 = 0) : zeroBytes length ≤ zeros :=
  Nat.find_min' (exists_zeros length) h

theorem zeroBytes_lt (length : Nat) : zeroBytes length < 64 := by
  have hle : zeroBytes length ≤ (55 + 64 - length % 64) % 64 := zeroBytes_le (by omega)
  omega

/-- A message of whole bytes whose length in bits is a 64-bit word. -/
structure Message where
  bytes : List Byte
  short : bytes.length < 2 ^ 61

theorem Message.bitLength_lt (message : Message) : 8 * message.bytes.length < 2 ^ 64 := by
  have hshort := message.short
  omega

/-- The padded message: marker, zero bytes and the length in bits as a 64-bit word. -/
def pad (message : Message) : List Byte :=
  message.bytes ++ [0x80] ++ List.replicate (zeroBytes message.bytes.length) 0 ++
    BigEndian.split 8 (BitVec.ofNatLT (8 * message.bytes.length) message.bitLength_lt)

/-- Block `i` of a padded message. -/
def block (padded : List Byte) (i : Nat) : List Byte := (padded.drop (64 * i)).take 64

/-- Word `t` of a block. -/
def word (block : List Byte) (t : Nat) : BitVec 32 := BigEndian.join 32 ((block.drop (4 * t)).take 4)

/-- The message schedule of a block. -/
def W (block : List Byte) (t : Nat) : BitVec 32 :=
  if t ≤ 15 then word block t
  else (W block (t - 3) ^^^ W block (t - 8) ^^^ W block (t - 14) ^^^ W block (t - 16)).rotateLeft 1

theorem W_of_le {block : List Byte} {t : Nat} (h : t ≤ 15) : W block t = word block t := by
  rw [W, if_pos h]

theorem W_of_lt {block : List Byte} {t : Nat} (h : 15 < t) : W block t =
    (W block (t - 3) ^^^ W block (t - 8) ^^^ W block (t - 14) ^^^ W block (t - 16)).rotateLeft 1 := by
  rw [W, if_neg (by omega)]

/-- The five words of a hash value, and the five working variables. -/
structure Words where
  a : BitVec 32
  b : BitVec 32
  c : BitVec 32
  d : BitVec 32
  e : BitVec 32

def Words.add (x y : Words) : Words := ⟨x.a + y.a, x.b + y.b, x.c + y.c, x.d + y.d, x.e + y.e⟩

/-- The initial hash value. -/
def H0 : Words := ⟨0x67452301, 0xEFCDAB89, 0x98BADCFE, 0x10325476, 0xC3D2E1F0⟩

/-- The working variables after `t` rounds on a block. -/
def working (h : Words) (block : List Byte) : Nat → Words
  | 0 => h
  | t + 1 =>
      let v := working h block t
      ⟨v.a.rotateLeft 5 + f t v.b v.c v.d + v.e + K t + W block t, v.a, v.b.rotateLeft 30, v.c, v.d⟩

/-- The hash value after `i` blocks. -/
def hash (padded : List Byte) : Nat → Words
  | 0 => H0
  | i + 1 => (working (hash padded i) (block padded i) 80).add (hash padded i)

/-- The digest: the words of the last hash value. -/
def digest (message : Message) : List Byte :=
  let h := hash (pad message) ((pad message).length / 64)
  BigEndian.split 4 h.a ++ BigEndian.split 4 h.b ++ BigEndian.split 4 h.c ++ BigEndian.split 4 h.d ++
    BigEndian.split 4 h.e

end Fips180
