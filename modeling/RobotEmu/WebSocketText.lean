import RobotEmu.WebSocketFrames

/-! What `sendText` sends is a frame that the layout of the reader knows: the writer and the reader agree on
the three forms of a length. -/

namespace RobotEmu

open Framing WebSocketConnection

/-- Bytes that the shortest form of a length takes behind the second byte. -/
def shortestLengthSize (length : Nat) : Nat :=
  if length ≤ 125 then 0 else if length ≤ 65535 then 2 else 8

/-- A final, unmasked frame of text whose length stands in the shortest form, with the top bit of the
longest form clear. -/
structure WebSocketFrame.CarriesText (frame : WebSocketFrame) (text : List Byte) : Prop where
  finalText : frame.byte0 = 0x81
  unmasked : frame.byte1.msb = false
  shortest : lengthSize frame.byte1 = shortestLengthSize text.length
  topBit : (BigEndian.join 64 frame.extended).msb = false
  payload : frame.payload = text

/-- The length that the second byte and the bytes behind it announce. -/
structure Announces (byte1 : Byte) (extended : List Byte) (length : Nat) : Prop where
  unmasked : byte1.msb = false
  shortest : lengthSize byte1 = shortestLengthSize length
  length_extended : extended.length = lengthSize byte1
  payloadLength : payloadLength byte1 extended = length
  topBit : (BigEndian.join 64 extended).msb = false

theorem announces_short {length : Nat} (h : length ≤ 125) : Announces (BitVec.ofNat 8 length) [] length := by
  have hall : ∀ n ≤ 125, (BitVec.ofNat 8 n).msb = false ∧ lengthSize (BitVec.ofNat 8 n) = 0 ∧
      (BitVec.ofNat 8 n &&& 0x7F).toNat = n := by decide
  obtain ⟨hmsb, hsize, hvalue⟩ := hall length h
  refine ⟨hmsb, ?_, hsize.symm, ?_, rfl⟩
  · rw [hsize, shortestLengthSize, if_pos h]
  · rw [payloadLength, if_pos hsize, hvalue]

/-- The extended forms, whose bytes are those of the length in network order. -/
theorem announces_extended (n : Nat) {byte1 : Byte} {length : Nat} (hmsb : byte1.msb = false)
    (hsize : lengthSize byte1 = n) (hpos : 0 < n) (hshortest : shortestLengthSize length = n)
    (hlength : length < 2 ^ (8 * n)) (htop : length < 2 ^ 63) :
    Announces byte1 (BigEndian.split n (BitVec.ofNat 64 length)) length := by
  have hvalue : (BitVec.ofNat 64 length).toNat = length := by
    rw [BitVec.toNat_ofNat, Nat.mod_eq_of_lt (by omega)]
  have hjoin : BigEndian.join 64 (BigEndian.split n (BitVec.ofNat 64 length)) = BitVec.ofNat 64 length :=
    BigEndian.join_split_of_lt (by rw [hvalue]; exact hlength)
  refine ⟨hmsb, hsize.trans hshortest.symm, ?_, ?_, ?_⟩
  · rw [BigEndian.length_split, hsize]
  · rw [payloadLength, if_neg (by omega), hjoin, hvalue]
  · rw [hjoin, BitVec.msb_eq_false_iff_two_mul_lt, hvalue]
    omega

/-- The three forms of the length. -/
theorem textFrame_eq {text : List Byte} (h : text.length < 2 ^ 63) :
    ∃ byte1 extended, Announces byte1 extended text.length ∧
      textFrame text = [0x81, byte1] ++ (extended ++ text) := by
  have hvalue : (BitVec.ofNat 64 text.length).toNat = text.length := by
    rw [BitVec.toNat_ofNat, Nat.mod_eq_of_lt (by omega)]
  have hle : ∀ bound : BitVec 64, BitVec.ofNat 64 text.length ≤ bound ↔ text.length ≤ bound.toNat := by
    intro bound
    rw [BitVec.le_def, hvalue]
  have h125 : BitVec.ofNat 64 text.length ≤ 125 ↔ text.length ≤ 125 := hle 125
  have h65535 : BitVec.ofNat 64 text.length ≤ 0xFFFF ↔ text.length ≤ 65535 := hle 0xFFFF
  rw [textFrame]
  by_cases hshort : text.length ≤ 125
  · refine ⟨_, _, announces_short hshort, ?_⟩
    rw [if_pos (h125.2 hshort), BitVec.setWidth_ofNat_of_le (by decide)]
    rfl
  rw [if_neg (by rwa [h125])]
  by_cases hmiddle : text.length ≤ 65535
  · refine ⟨126, _, announces_extended 2 rfl rfl (by decide) ?_ (by omega) h, ?_⟩
    · rw [shortestLengthSize, if_neg hshort, if_pos hmiddle]
    · rw [if_pos (h65535.2 hmiddle)]
      simp [BigEndian.split, BitVec.setWidth_and, and_byteMask]
  · refine ⟨127, _, announces_extended 8 rfl rfl (by decide) ?_ (by omega) h, ?_⟩
    · rw [shortestLengthSize, if_neg hshort, if_neg hmiddle]
    · rw [if_neg (by rwa [h65535])]
      simp [BigEndian.split, BitVec.setWidth_and, and_byteMask, ← BitVec.shiftRight_add]

/-- The frame of a text. -/
theorem exists_carriesText {text : List Byte} (h : text.length < 2 ^ 63) :
    ∃ frame : WebSocketFrame, frame.CarriesText text ∧ textFrame text = frame.wire := by
  obtain ⟨byte1, extended, hannounces, hbytes⟩ := textFrame_eq h
  have hmask : maskSize byte1 = 0 := by
    rw [maskSize, hannounces.unmasked]
    rfl
  let frame : WebSocketFrame := {
    byte0 := 0x81
    byte1 := byte1
    extended := extended
    maskKey := []
    payload := text
    length_extended := hannounces.length_extended
    length_maskKey := hmask.symm
    length_payload := hannounces.payloadLength.symm }
  exact ⟨frame, ⟨rfl, hannounces.unmasked, hannounces.shortest, hannounces.topBit, rfl⟩, hbytes⟩

namespace WebSocketFrame.CarriesText

variable {frame : WebSocketFrame} {text : List Byte}

theorem outcome (h : frame.CarriesText text) : frame.outcome = .ok () := by
  rw [WebSocketFrame.outcome, opcode, h.finalText]
  rfl

theorem maskKey (h : frame.CarriesText text) : frame.maskKey = [] := by
  apply List.eq_nil_of_length_eq_zero
  rw [frame.length_maskKey, maskSize, h.unmasked]
  rfl

theorem payloadLength (h : frame.CarriesText text) :
    payloadLength frame.byte1 frame.extended = text.length := by
  rw [← frame.length_payload, h.payload]

end WebSocketFrame.CarriesText

/-- **What is sent is what is read.** The bytes handed to the transport are one final unmasked text frame
with the shortest form of the length and the text as payload. Whatever follows them, and however they are
cut, `pollForClose` reads that length, takes exactly this frame and does not report a close. -/
theorem sendText_wire (text : List Byte) (sent : Bool) (h : text.length < 2 ^ 63) :
    ∃ frame : WebSocketFrame, frame.CarriesText text ∧ frame.maskKey = [] ∧
      (sendText text sent).2 = frame.wire ∧
      (∀ tail, WebSocketFrame.decode ((sendText text sent).2 ++ tail)
        = .frame frame (sendText text sent).2.length) ∧
      (∃ payloadLen : BitVec 64, payloadLen.toNat = text.length ∧
        Takes (readPayloadLen frame.byte1) frame.extended (.ok payloadLen)) ∧
      Takes pollForClose (sendText text sent).2 (.ok ()) := by
  obtain ⟨frame, hcarries, hbytes⟩ := exists_carriesText h
  obtain ⟨payloadLen, hpayloadLen, htakes⟩ := takes_readPayloadLen frame.length_extended
  have hpoll := takes_pollForClose frame
  rw [hcarries.outcome] at hpoll
  rw [sendText, hbytes]
  refine ⟨frame, hcarries, hcarries.maskKey, rfl, frame.decode_wire_append, ⟨payloadLen, ?_, htakes⟩, hpoll⟩
  rw [hpayloadLen, hcarries.payloadLength]

theorem sendText_wire_hello :
    ∃ frame : WebSocketFrame, frame.CarriesText (bytesOf "hello") ∧ frame.maskKey = [] ∧
      (sendText (bytesOf "hello") true).2 = frame.wire ∧
      (∀ tail, WebSocketFrame.decode ((sendText (bytesOf "hello") true).2 ++ tail)
        = .frame frame (sendText (bytesOf "hello") true).2.length) ∧
      (∃ payloadLen : BitVec 64, payloadLen.toNat = (bytesOf "hello").length ∧
        Takes (readPayloadLen frame.byte1) frame.extended (.ok payloadLen)) ∧
      Takes pollForClose (sendText (bytesOf "hello") true).2 (.ok ()) :=
  sendText_wire (bytesOf "hello") true (by decide)

end RobotEmu
