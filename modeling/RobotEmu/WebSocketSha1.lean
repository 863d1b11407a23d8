import RobotEmu.ByteOrder

/-! `sha1.cpp`. The message is padded to whole chunks of 64 bytes; each chunk is expanded into 80 words
and stirred into five registers in 80 rounds. -/

namespace RobotEmu
namespace Sha1

def rotateLeft (value : BitVec 32) (bits : Nat) : BitVec 32 :=
  (value <<< bits) ||| (value >>> (32 - bits))

/-- `while (message.size() % 64 != 56)`. -/
def pushZeros (message : List Byte) : List Byte :=
  if message.length % 64 ≠ 56 then pushZeros (message ++ [0x00]) else message
termination_by (120 - message.length % 64) % 64
decreasing_by
  rw [List.length_append, List.length_singleton]
  omega

/-- The message padded: the bit length is a `std::uint64_t` and wraps. -/
def preprocess (input : List Byte) : List Byte :=
  let originalBitLength := BitVec.ofNat 64 input.length * 8
  pushZeros (input ++ [0x80]) ++ [56, 48, 40, 32, 24, 16, 8, 0].map fun shift =>
    ((originalBitLength >>> (shift : Nat)) &&& 0xFF#64).setWidth 8

/-- The message's word that starts at an offset. -/
def wordAt (message : List Byte) (offset : Nat) : BitVec 32 :=
  ((message.getD offset 0).setWidth 32 <<< 24) ||| ((message.getD (offset + 1) 0).setWidth 32 <<< 16) |||
    ((message.getD (offset + 2) 0).setWidth 32 <<< 8) ||| (message.getD (offset + 3) 0).setWidth 32

/-- The array `w` of a chunk: the words of the chunk, then each from four before it. -/
def schedule (message : List Byte) (chunkStart : Nat) : List (BitVec 32) :=
  (List.range' 16 64).foldl (fun w i => w ++ [rotateLeft (w.getD (i - 3) 0 ^^^ w.getD (i - 8) 0 ^^^
      w.getD (i - 14) 0 ^^^ w.getD (i - 16) 0) 1])
    ((List.range 16).map fun i => wordAt message (chunkStart + i * 4))

structure Registers where
  a : BitVec 32
  b : BitVec 32
  c : BitVec 32
  d : BitVec 32
  e : BitVec 32
  deriving DecidableEq, Repr

/-- A round: the function and the constant change every twenty of them. -/
def round (w : List (BitVec 32)) (r : Registers) (i : Nat) : Registers :=
  let (f, k) :=
    if i < 20 then ((r.b &&& r.c) ||| (~~~r.b &&& r.d), 0x5A827999#32)
    else if i < 40 then (r.b ^^^ r.c ^^^ r.d, 0x6ED9EBA1#32)
    else if i < 60 then ((r.b &&& r.c) ||| (r.b &&& r.d) ||| (r.c &&& r.d), 0x8F1BBCDC#32)
    else (r.b ^^^ r.c ^^^ r.d, 0xCA62C1D6#32)
  let temp := rotateLeft r.a 5 + f + r.e + k + w.getD i 0
  { a := temp, b := r.a, c := rotateLeft r.b 30, d := r.c, e := r.d }

def processChunk (message : List Byte) (h : Registers) (chunkStart : Nat) : Registers :=
  let w := schedule message chunkStart
  let r := (List.range 80).foldl (round w) h
  { a := h.a + r.a, b := h.b + r.b, c := h.c + r.c, d := h.d + r.d, e := h.e + r.e }

def initial : Registers := ⟨0x67452301, 0xEFCDAB89, 0x98BADCFE, 0x10325476, 0xC3D2E1F0⟩

/-- The five registers in network order. -/
def Registers.digest (h : Registers) : List Byte :=
  [h.a, h.b, h.c, h.d, h.e].flatMap fun value : BitVec 32 =>
    [((value >>> 24) &&& 0xFF#32).setWidth 8, ((value >>> 16) &&& 0xFF#32).setWidth 8,
      ((value >>> 8) &&& 0xFF#32).setWidth 8, (value &&& 0xFF#32).setWidth 8]

/-- `for (chunkStart = 0; chunkStart < message.size(); chunkStart += 64)`. -/
def chunkStarts (message : List Byte) : List Nat :=
  (List.range ((message.length + 63) / 64)).map (· * 64)

theorem length_pushZeros_mod (message : List Byte) : (pushZeros message).length % 64 = 56 := by
  induction message using pushZeros.induct with
  | case1 message hmod ih => rwa [pushZeros, if_pos hmod]
  | case2 message hmod =>
      rw [pushZeros, if_neg hmod]
      exact Decidable.not_not.1 hmod

/-- The padded message is whole chunks. -/
theorem length_preprocess_mod (input : List Byte) : (preprocess input).length % 64 = 0 := by
  have hzeros := length_pushZeros_mod (input ++ [0x80])
  rw [preprocess, List.length_append, List.length_map, List.length_cons]
  simp only [List.length_cons, List.length_nil]
  omega

end Sha1

def sha1 (input : List Byte) : List Byte :=
  let message := Sha1.preprocess input
  ((Sha1.chunkStarts message).foldl (Sha1.processChunk message) Sha1.initial).digest

end RobotEmu
