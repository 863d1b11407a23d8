import RobotEmu.ByteOrder

/-! `base64.cpp`: three bytes become four symbols, and one or two that remain are padded. -/

namespace RobotEmu
namespace Base64

def kAlphabet : List Byte := bytesOf "ABCDEFGHIJKLMNOPQRSTUVWXYZabcdefghijklmnopqrstuvwxyz0123456789+/"

/-- `kAlphabet[(value >> shift) & 0x3F]`. -/
def symbol (value : BitVec 32) (shift : Nat) : Byte :=
  kAlphabet.getD ((value >>> shift) &&& 0x3F#32).toNat 0

def pad : Byte := 0x3D

end Base64

open Base64

def base64Encode : List Byte → List Byte
  | b0 :: b1 :: b2 :: rest =>
      let triple := (b0.setWidth 32 <<< 16) ||| (b1.setWidth 32 <<< 8) ||| b2.setWidth 32
      [symbol triple 18, symbol triple 12, symbol triple 6, symbol triple 0] ++ base64Encode rest
  | [b0, b1] =>
      let value := (b0.setWidth 32 <<< 16) ||| (b1.setWidth 32 <<< 8)
      [symbol value 18, symbol value 12, symbol value 6, pad]
  | [b0] =>
      let value := b0.setWidth 32 <<< 16
      [symbol value 18, symbol value 12, pad, pad]
  | [] => []

/-- The length that `out` reserves. -/
theorem length_base64Encode (input : List Byte) :
    (base64Encode input).length = (input.length + 2) / 3 * 4 := by
  induction input using base64Encode.induct with
  | case1 b0 b1 b2 rest ih =>
      rw [base64Encode, List.length_append, ih]
      simp only [List.length_cons, List.length_nil]
      omega
  | case2 | case3 | case4 => simp [base64Encode]

end RobotEmu
