import RobotEmu.Framing
import RobotEmu.WebSocketConnection

/-! Frames as RFC 6455 lays them out, and what successive calls of `pollForClose` make of a stream of
them. The calls return what the frames of the stream say and take whole frames off its front, as long as
the stream has a whole frame to give. -/

namespace RobotEmu

open Framing

/-- Bytes of the extended payload length that the second byte announces. -/
def lengthSize (byte1 : Byte) : Nat :=
  if byte1 &&& 0x7F = 126 then 2 else if byte1 &&& 0x7F = 127 then 8 else 0

/-- Bytes of the masking key that the second byte announces. -/
def maskSize (byte1 : Byte) : Nat := if byte1.msb then 4 else 0

/-- The payload length: seven bits, or the extended length in network order. -/
def payloadLength (byte1 : Byte) (extended : List Byte) : Nat :=
  if lengthSize byte1 = 0 then (byte1 &&& 0x7F).toNat else (BigEndian.join 64 extended).toNat

/-- A frame as it is sent. -/
structure WebSocketFrame where
  byte0 : Byte
  byte1 : Byte
  extended : List Byte
  maskKey : List Byte
  payload : List Byte
  length_extended : extended.length = lengthSize byte1
  length_maskKey : maskKey.length = maskSize byte1
  length_payload : payload.length = payloadLength byte1 extended

namespace WebSocketFrame

def opcode (frame : WebSocketFrame) : Byte := frame.byte0 &&& 0x0F

def wire (frame : WebSocketFrame) : List Byte :=
  [frame.byte0, frame.byte1] ++ (frame.extended ++ (frame.maskKey ++ frame.payload))

/-- What a call that meets the frame returns. -/
def outcome (frame : WebSocketFrame) : Except WebSocketError Unit :=
  if frame.opcode = 0x8 then .error .connectionClosed else .ok ()

theorem length_wire (frame : WebSocketFrame) : frame.wire.length
    = 2 + lengthSize frame.byte1 + maskSize frame.byte1 + payloadLength frame.byte1 frame.extended := by
  simp only [wire, List.length_append, List.length_cons, List.length_nil, frame.length_extended,
    frame.length_maskKey, frame.length_payload]
  omega

/-- The frame that the bytes start with. -/
def decode : List Byte → Verdict WebSocketFrame
  | byte0 :: byte1 :: rest =>
      let extended := rest.take (lengthSize byte1)
      let keyed := rest.drop (lengthSize byte1)
      let data := keyed.drop (maskSize byte1)
      if h : lengthSize byte1 ≤ rest.length ∧ maskSize byte1 ≤ keyed.length ∧
          payloadLength byte1 extended ≤ data.length then
        let frame : WebSocketFrame := {
          byte0 := byte0
          byte1 := byte1
          extended := extended
          maskKey := keyed.take (maskSize byte1)
          payload := data.take (payloadLength byte1 extended)
          length_extended := List.length_take_of_le h.1
          length_maskKey := List.length_take_of_le h.2.1
          length_payload := List.length_take_of_le h.2.2 }
        .frame frame frame.wire.length
      else .incomplete
  | _ => .incomplete

/-- A decoded frame is what the bytes start with. -/
theorem prefix_of_decode {bytes : List Byte} {frame : WebSocketFrame} {n : Nat}
    (h : decode bytes = .frame frame n) : n = frame.wire.length ∧ frame.wire <+: bytes := by
  rw [decode.eq_def] at h
  split at h
  · next byte0 byte1 rest =>
      dsimp only at h
      split_ifs at h with hcomplete
      obtain ⟨rfl, rfl⟩ := Verdict.frame.inj h
      refine ⟨rfl, ((rest.drop (lengthSize byte1)).drop (maskSize byte1)).drop
        (payloadLength byte1 (rest.take (lengthSize byte1))), ?_⟩
      simp only [wire, List.append_assoc, List.take_append_drop]
      rfl
  · exact nomatch h

theorem decode_wire_append (frame : WebSocketFrame) (more : List Byte) :
    decode (frame.wire ++ more) = .frame frame frame.wire.length := by
  have hwire : frame.wire ++ more = frame.byte0 :: frame.byte1 ::
      (frame.extended ++ (frame.maskKey ++ (frame.payload ++ more))) := by
    simp only [wire, List.append_assoc, List.cons_append, List.nil_append]
  have hextended (later : List Byte) : (frame.extended ++ later).take (lengthSize frame.byte1)
      = frame.extended := List.take_left' frame.length_extended
  have hkeyed (later : List Byte) : (frame.extended ++ later).drop (lengthSize frame.byte1) = later :=
    List.drop_left' frame.length_extended
  have hmaskKey (later : List Byte) : (frame.maskKey ++ later).take (maskSize frame.byte1)
      = frame.maskKey := List.take_left' frame.length_maskKey
  have hdata (later : List Byte) : (frame.maskKey ++ later).drop (maskSize frame.byte1) = later :=
    List.drop_left' frame.length_maskKey
  have hpayload : (frame.payload ++ more).take (payloadLength frame.byte1 frame.extended)
      = frame.payload := List.take_left' frame.length_payload
  rw [hwire, decode]
  simp only [hextended, hkeyed, hmaskKey, hdata, hpayload]
  rw [dif_pos]
  refine ⟨?_, ?_, ?_⟩
  · rw [List.length_append, frame.length_extended]
    exact Nat.le_add_right _ _
  · rw [List.length_append, frame.length_maskKey]
    exact Nat.le_add_right _ _
  · rw [List.length_append, frame.length_payload]
    exact Nat.le_add_right _ _

theorem decode_of_starts {bytes : List Byte} {frame : WebSocketFrame} (h : frame.wire <+: bytes) :
    decode bytes = .frame frame frame.wire.length := by
  obtain ⟨more, rfl⟩ := h
  exact frame.decode_wire_append more

/-- What the bytes start with, once whole, is not changed by the bytes that follow. -/
def decoder : Decoder Byte WebSocketFrame where
  decode := decode
  consumed_pos := by
    intro bytes frame n h
    obtain ⟨rfl, -⟩ := prefix_of_decode h
    rw [length_wire]
    omega
  consumed_le := by
    intro bytes frame n h
    obtain ⟨rfl, hstarts⟩ := prefix_of_decode h
    exact hstarts.length_le
  frame_append := by
    intro bytes frame n more h
    obtain ⟨rfl, hstarts⟩ := prefix_of_decode h
    exact decode_of_starts (hstarts.trans (List.prefix_append bytes more))
  malformed_append := by
    intro bytes more h
    rw [decode.eq_def] at h
    split at h
    · dsimp only at h
      split_ifs at h
    · exact nomatch h

theorem frames_flatMap_wire (frames : List WebSocketFrame) : decoder.frames (frames.flatMap wire) = (frames, []) := by
  induction frames with
  | nil => exact decoder.frames_of_incomplete rfl
  | cons frame frames ih =>
      have hdec : decoder.decode (frame.wire ++ frames.flatMap wire) = .frame frame frame.wire.length :=
        frame.decode_wire_append _
      rw [List.flatMap_cons, decoder.frames_of_frame hdec, List.drop_left, ih]

end WebSocketFrame

namespace WebSocketConnection

open WebSocketFrame

/-- A call that takes given bytes off the front of what is unconsumed, and its result. -/
def Takes {α : Type} (call : Call α) (bytes : List Byte) (result : Except WebSocketError α) : Prop :=
  ∀ (connection : WebSocketConnection) (rest : List Byte), connection.unconsumed = bytes ++ rest →
    ∃ after : WebSocketConnection, after.unconsumed = rest ∧
      call.run.run connection = (result, after)

theorem Takes.bind {α β : Type} {call : Call α} {next : α → Call β} {bytes more : List Byte} {a : α}
    {result : Except WebSocketError β} (hcall : Takes call bytes (.ok a)) (hnext : Takes (next a) more result) :
    Takes (call >>= next) (bytes ++ more) result := by
  intro connection rest h
  rw [List.append_assoc] at h
  obtain ⟨between, hbetween, hrun⟩ := hcall connection (more ++ rest) h
  rw [run_bind_ok hrun]
  exact hnext between rest hbetween

theorem takes_readExactBuffered {count : Nat} {bytes : List Byte} (h : bytes.length = count) :
    Takes (readExactBuffered count) bytes (.ok bytes) := by
  intro connection rest hunconsumed
  subst h
  exact readExactBuffered_ok hunconsumed

theorem takes_pure {α : Type} (a : α) : Takes (pure a) [] (.ok a) :=
  fun connection _ h => ⟨connection, h, rfl⟩

/-- What is done after a call without reading. -/
theorem Takes.finish {α β : Type} {call : Call α} {next : α → Call β} {bytes : List Byte} {a : α}
    {result : Except WebSocketError β} (hcall : Takes call bytes (.ok a)) (hnext : Takes (next a) [] result) :
    Takes (call >>= next) bytes result := by
  have hboth := hcall.bind hnext
  rwa [List.append_nil] at hboth

/-- The length that the code reads is the one of the layout. -/
theorem takes_readPayloadLen {byte1 : Byte} {extended : List Byte} (h : extended.length = lengthSize byte1) :
    ∃ payloadLen : BitVec 64, payloadLen.toNat = payloadLength byte1 extended ∧
      Takes (readPayloadLen byte1) extended (.ok payloadLen) := by
  rw [readPayloadLen]
  by_cases h126 : byte1 &&& 0x7F = 126
  · have hsize : lengthSize byte1 = 2 := if_pos h126
    obtain ⟨high, low, rfl⟩ := List.length_eq_two.1 (h.trans hsize)
    rw [if_pos h126, payloadLength, if_neg (by rw [hsize]; decide)]
    refine ⟨_, ?_, (takes_readExactBuffered rfl).finish (takes_pure _)⟩
    simp [BigEndian.join]
  · by_cases h127 : byte1 &&& 0x7F = 127
    · have hsize : lengthSize byte1 = 8 := (if_neg h126).trans (if_pos h127)
      rw [if_neg h126, if_pos h127, payloadLength, if_neg (by rw [hsize]; decide)]
      exact ⟨_, rfl, (takes_readExactBuffered (h.trans hsize)).finish (takes_pure _)⟩
    · have hsize : lengthSize byte1 = 0 := (if_neg h126).trans (if_neg h127)
      obtain rfl := List.eq_nil_of_length_eq_zero (h.trans hsize)
      rw [if_neg h126, if_neg h127, payloadLength, if_pos hsize]
      refine ⟨_, ?_, takes_pure _⟩
      exact BitVec.toNat_setWidth_of_le (by decide)

theorem maskBit (byte : Byte) : byte &&& 0x80 ≠ 0 ↔ byte.msb = true := by
  revert byte
  decide

theorem takes_readMaskKey {byte1 : Byte} {maskKey : List Byte} (h : maskKey.length = maskSize byte1) :
    ∃ key, Takes (readMaskKey byte1) maskKey (.ok key) := by
  rw [readMaskKey]
  unfold maskSize at h
  simp only [maskBit]
  split_ifs at h ⊢ with hmask
  · exact ⟨maskKey, takes_readExactBuffered h⟩
  · obtain rfl := List.eq_nil_of_length_eq_zero h
    exact ⟨_, takes_pure _⟩

theorem takes_readPayload {payloadLen : BitVec 64} {payload : List Byte}
    (h : payload.length = payloadLen.toNat) : Takes (readPayload payloadLen) payload (.ok payload) := by
  rw [readPayload]
  split_ifs with hpositive
  · exact takes_readExactBuffered h
  · have hzero : payloadLen.toNat = 0 := Nat.eq_zero_of_not_pos hpositive
    obtain rfl := List.eq_nil_of_length_eq_zero (h.trans hzero)
    exact takes_pure _

/-- A call that meets a whole frame takes it. -/
theorem takes_pollForClose (frame : WebSocketFrame) : Takes pollForClose frame.wire frame.outcome := by
  obtain ⟨payloadLen, hpayloadLen, hextended⟩ := takes_readPayloadLen frame.length_extended
  obtain ⟨key, hmaskKey⟩ := takes_readMaskKey frame.length_maskKey
  have hheader : Takes (readExactBuffered 2) [frame.byte0, frame.byte1] (.ok _) :=
    takes_readExactBuffered rfl
  have hpayload := takes_readPayload (frame.length_payload.trans hpayloadLen.symm)
  apply hheader.bind
  apply hextended.bind
  apply hmaskKey.bind
  apply hpayload.finish
  intro connection rest h
  refine ⟨connection, h, ?_⟩
  rw [outcome]
  change (if frame.opcode = 0x8 then throw .connectionClosed else pure () : Call Unit).run.run connection = _
  split_ifs <;> rfl

/-- A call that runs out of bytes. -/
def Starves {α : Type} (call : Call α) (connection : WebSocketConnection) : Prop :=
  ∃ after, call.run.run connection = (.error .connectionClosed, after)

theorem Starves.bind {α β : Type} {call : Call α} {next : α → Call β} {connection : WebSocketConnection}
    (h : Starves call connection) : Starves (call >>= next) connection := by
  obtain ⟨after, hrun⟩ := h
  exact ⟨after, run_bind_error hrun⟩

theorem Takes.starves {α β : Type} {call : Call α} {next : α → Call β} {bytes rest : List Byte} {a : α}
    {connection : WebSocketConnection} (hcall : Takes call bytes (.ok a))
    (h : connection.unconsumed = bytes ++ rest)
    (hnext : ∀ after : WebSocketConnection, after.unconsumed = rest → Starves (next a) after) :
    Starves (call >>= next) connection := by
  obtain ⟨between, hbetween, hrun⟩ := hcall connection rest h
  rw [Starves, run_bind_ok hrun]
  exact hnext between hbetween

theorem starves_readExactBuffered {count : Nat} {connection : WebSocketConnection}
    (h : connection.unconsumed.length < count) : Starves (readExactBuffered count) connection := by
  obtain ⟨after, -, hrun⟩ := readExactBuffered_error h
  exact ⟨after, hrun⟩

theorem starves_readPayloadLen {byte1 : Byte} {connection : WebSocketConnection}
    (h : connection.unconsumed.length < lengthSize byte1) : Starves (readPayloadLen byte1) connection := by
  rw [readPayloadLen]
  unfold lengthSize at h
  split_ifs at h ⊢
  · exact (starves_readExactBuffered h).bind
  · exact (starves_readExactBuffered h).bind
  · omega

theorem starves_readMaskKey {byte1 : Byte} {connection : WebSocketConnection}
    (h : connection.unconsumed.length < maskSize byte1) : Starves (readMaskKey byte1) connection := by
  rw [readMaskKey]
  unfold maskSize at h
  simp only [maskBit]
  split_ifs at h ⊢
  · exact starves_readExactBuffered h
  · omega

theorem starves_readPayload {payloadLen : BitVec 64} {connection : WebSocketConnection}
    (h : connection.unconsumed.length < payloadLen.toNat) : Starves (readPayload payloadLen) connection := by
  rw [readPayload, if_pos (show payloadLen > 0 from Nat.lt_of_le_of_lt (Nat.zero_le _) h)]
  exact starves_readExactBuffered h

theorem exists_split {n : Nat} {bytes : List Byte} (h : ¬ bytes.length < n) :
    ∃ front back, bytes = front ++ back ∧ front.length = n :=
  ⟨bytes.take n, bytes.drop n, (List.take_append_drop n bytes).symm,
    List.length_take_of_le (Nat.le_of_not_lt h)⟩

/-- A call that meets no whole frame fails: if every read had enough bytes, they would make up a frame. -/
theorem starves_pollForClose {connection : WebSocketConnection}
    (h : ∀ frame : WebSocketFrame, ¬ frame.wire <+: connection.unconsumed) :
    Starves pollForClose connection := by
  by_cases hheader : connection.unconsumed.length < 2
  · exact (starves_readExactBuffered hheader).bind
  obtain ⟨header, rest, hunconsumed, hlength⟩ := exists_split hheader
  obtain ⟨byte0, byte1, rfl⟩ := List.length_eq_two.1 hlength
  apply (takes_readExactBuffered hlength).starves hunconsumed
  intro afterHeader hafterHeader
  by_cases hextended : rest.length < lengthSize byte1
  · exact (starves_readPayloadLen (hafterHeader ▸ hextended)).bind
  obtain ⟨extended, keyed, rfl, length_extended⟩ := exists_split hextended
  obtain ⟨payloadLen, hpayloadLen, htakes⟩ := takes_readPayloadLen length_extended
  apply htakes.starves hafterHeader
  intro afterExtended hafterExtended
  by_cases hmaskKey : keyed.length < maskSize byte1
  · exact (starves_readMaskKey (hafterExtended ▸ hmaskKey)).bind
  obtain ⟨maskKey, data, rfl, length_maskKey⟩ := exists_split hmaskKey
  obtain ⟨key, htakes⟩ := takes_readMaskKey length_maskKey
  apply htakes.starves hafterExtended
  intro afterMaskKey hafterMaskKey
  by_cases hpayload : data.length < payloadLen.toNat
  · exact (starves_readPayload (hafterMaskKey ▸ hpayload)).bind
  obtain ⟨payload, later, rfl, length_payload⟩ := exists_split hpayload
  let frame : WebSocketFrame :=
    { byte0, byte1, extended, maskKey, payload, length_extended, length_maskKey
      length_payload := length_payload.trans hpayloadLen }
  refine absurd ⟨later, ?_⟩ (h frame)
  rw [hunconsumed]
  simp only [frame, wire, List.append_assoc]

/-- Bytes only ever leave by the front. -/
def Keeps {α : Type} (call : Call α) : Prop :=
  ∀ connection : WebSocketConnection,
    (call.run.run connection).2.unconsumed <:+ connection.unconsumed

theorem Keeps.bind {α β : Type} {call : Call α} {next : α → Call β} (hcall : Keeps call)
    (hnext : ∀ a, Keeps (next a)) : Keeps (call >>= next) := by
  intro connection
  have hfirst := hcall connection
  rcases hrun : call.run.run connection with ⟨a | a, between⟩
  · rw [run_bind_error hrun]
    rwa [hrun] at hfirst
  · rw [run_bind_ok hrun]
    rw [hrun] at hfirst
    exact (hnext a between).trans hfirst

theorem keeps_pure {α : Type} (result : Except WebSocketError α) :
    Keeps (ExceptT.mk (pure result)) :=
  fun connection => List.suffix_refl connection.unconsumed

theorem keeps_readExactBuffered (count : Nat) : Keeps (readExactBuffered count) := by
  intro connection
  by_cases hlength : connection.unconsumed.length < count
  · obtain ⟨after, hafter, hrun⟩ := readExactBuffered_error hlength
    rw [hrun, hafter]
  · obtain ⟨front, back, hunconsumed, rfl⟩ := exists_split hlength
    obtain ⟨after, hafter, hrun⟩ := readExactBuffered_ok hunconsumed
    rw [hrun, hafter, hunconsumed]
    exact List.suffix_append front back

theorem keeps_pollForClose : Keeps pollForClose := by
  apply (keeps_readExactBuffered 2).bind
  intro header
  refine Keeps.bind ?_ fun payloadLen => Keeps.bind ?_ fun _ => Keeps.bind ?_ fun _ => ?_
  · rw [readPayloadLen]
    split_ifs
    · exact (keeps_readExactBuffered 2).bind fun _ => keeps_pure _
    · exact (keeps_readExactBuffered 8).bind fun _ => keeps_pure _
    · exact keeps_pure _
  · rw [readMaskKey]
    split_ifs
    · exact keeps_readExactBuffered 4
    · exact keeps_pure _
  · rw [readPayload]
    split_ifs
    · exact keeps_readExactBuffered _
    · exact keeps_pure _
  · split_ifs
    · exact keeps_pure _
    · exact keeps_pure _

/-! ### Successive calls -/

/-- The results of a number of calls, and the connection they leave. -/
def polls (connection : WebSocketConnection) :
    Nat → List (Except WebSocketError Unit) × WebSocketConnection
  | 0 => ([], connection)
  | calls + 1 =>
      let before := connection.polls calls
      let (result, after) := pollForClose.run.run before.2
      (before.1 ++ [result], after)

/-- A number of calls return what as many frames of the stream say, and failures once there are no more;
what is unconsumed is the stream without these frames. -/
def ReadsFrames (connection : WebSocketConnection) (stream : List Byte) (calls : Nat) : Prop :=
  let frames := (decoder.frames stream).1
  (connection.polls calls).1 = (frames.take calls).map outcome
      ++ List.replicate (calls - frames.length) (.error .connectionClosed) ∧
    (frames.take calls).flatMap wire ++ (connection.polls calls).2.unconsumed = stream

/-- What holds of the calls on any stream: as long as there are frames they are read, the call after the
last one fails, and whatever is called, the unconsumed bytes are an end of the stream. -/
structure FollowsFrames (connection : WebSocketConnection) (stream : List Byte) : Prop where
  frames : ∀ calls ≤ (decoder.frames stream).1.length, connection.ReadsFrames stream calls
  last : (connection.polls ((decoder.frames stream).1.length + 1)).1
    = (decoder.frames stream).1.map outcome ++ [.error .connectionClosed]
  suffix : ∀ calls, (connection.polls calls).2.unconsumed <:+ stream

theorem polls_succ {connection after : WebSocketConnection} {calls : Nat} {result : Except WebSocketError Unit}
    (h : pollForClose.run.run (connection.polls calls).2 = (result, after)) :
    connection.polls (calls + 1) = ((connection.polls calls).1 ++ [result], after) := by
  rw [polls, h]

/-- One call, on a stream that has a frame to give. -/
theorem poll_of_frame {connection : WebSocketConnection} {frame : WebSocketFrame} {n : Nat}
    (h : decoder.decode connection.unconsumed = .frame frame n) :
    ∃ after : WebSocketConnection, pollForClose.run.run connection = (frame.outcome, after) ∧
      after.unconsumed = connection.unconsumed.drop n ∧
      frame.wire ++ after.unconsumed = connection.unconsumed := by
  obtain ⟨rfl, rest, hunconsumed⟩ := prefix_of_decode h
  obtain ⟨after, hafter, hrun⟩ := takes_pollForClose frame connection rest hunconsumed.symm
  refine ⟨after, hrun, ?_, ?_⟩
  · rw [hafter, ← hunconsumed, List.drop_left]
  · rw [hafter, hunconsumed]

/-- As long as the stream has frames, each call takes the next one. -/
theorem frames_polls (connection : WebSocketConnection) (calls : Nat)
    (h : calls ≤ (decoder.frames connection.unconsumed).1.length) :
    decoder.frames (connection.polls calls).2.unconsumed
        = ((decoder.frames connection.unconsumed).1.drop calls,
          (decoder.frames connection.unconsumed).2) ∧
      ReadsFrames connection connection.unconsumed calls := by
  induction calls with
  | zero =>
      refine ⟨rfl, ?_, rfl⟩
      rw [Nat.zero_sub]
      rfl
  | succ calls ih =>
      obtain ⟨hframes, hresults, hstream⟩ := ih (by omega)
      rw [List.drop_eq_getElem_cons h] at hframes
      obtain ⟨n, hdec, hlater⟩ := decoder.decode_of_frames_cons hframes
      obtain ⟨after, hrun, hafter, hwire⟩ := poll_of_frame hdec
      rw [← hafter] at hlater
      rw [ReadsFrames, polls_succ hrun]
      refine ⟨hlater, ?_, ?_⟩
      · rw [Nat.sub_eq_zero_of_le h, List.take_succ_eq_append_getElem h, List.map_append]
        rw [Nat.sub_eq_zero_of_le (by omega)] at hresults
        rw [hresults]
        simp only [List.replicate_zero, List.append_nil, List.map_cons, List.map_nil]
      · rw [List.take_succ_eq_append_getElem h, List.flatMap_append, List.append_assoc,
          List.flatMap_singleton, hwire]
        exact hstream

/-- The call after the last frame fails. -/
theorem polls_last (connection : WebSocketConnection) :
    (connection.polls ((decoder.frames connection.unconsumed).1.length + 1)).1
      = (decoder.frames connection.unconsumed).1.map outcome ++ [.error .connectionClosed] := by
  let frames := (decoder.frames connection.unconsumed).1
  obtain ⟨hframes, hresults, -⟩ := connection.frames_polls frames.length (Nat.le_refl _)
  have hstarves : Starves pollForClose (connection.polls frames.length).2 := by
    apply starves_pollForClose
    intro frame hstarts
    have hdec := decoder.frames_of_frame (decode_of_starts hstarts)
    rw [hframes, List.drop_length] at hdec
    exact nomatch hdec
  obtain ⟨after, hrun⟩ := hstarves
  rw [Nat.sub_self, List.take_length, List.replicate_zero, List.append_nil] at hresults
  rw [polls_succ hrun, hresults]

/-- Whatever is called, the unconsumed bytes are an end of the stream. -/
theorem polls_suffix (connection : WebSocketConnection) (calls : Nat) :
    (connection.polls calls).2.unconsumed <:+ connection.unconsumed := by
  induction calls with
  | zero => exact List.suffix_refl _
  | succ calls ih => exact (keeps_pollForClose (connection.polls calls).2).trans ih

end WebSocketConnection

namespace Upgrade

open WebSocketConnection WebSocketFrame

theorem unconsumed_of_accept {upgrade : Upgrade} {sent : Bool} {connection : WebSocketConnection}
    (h : (accept upgrade.inbound sent).1 = .ok connection) : connection.unconsumed = upgrade.stream := by
  by_cases hsize : upgrade.received.length ≤ 16384
  · obtain ⟨accepted, hunconsumed, haccept⟩ := upgrade.accept_of_size_le hsize sent
    rw [haccept] at h
    split at h
    · exact nomatch h
    · dsimp only at h
      split_ifs at h
      obtain rfl := Except.ok.inj h
      exact hunconsumed
  · rw [upgrade.accept_of_size_gt (by omega)] at h
    exact nomatch h

/-- After a handshake the calls follow the frames of the stream until one finds no whole frame and
fails. -/
theorem followsFrames_of_accept (upgrade : Upgrade) (sent : Bool) (connection : WebSocketConnection)
    (h : (accept upgrade.inbound sent).1 = .ok connection) :
    connection.FollowsFrames upgrade.stream := by
  rw [← unconsumed_of_accept h]
  exact ⟨fun calls hcalls => (connection.frames_polls calls hcalls).2, connection.polls_last,
    connection.polls_suffix⟩

def plainHead : List Byte := bytesOf "GET / HTTP/1.1\r\nSec-WebSocket-Key: dGhlIHNhbXBsZQ=="

/-- A masked text, a frame of the least length that takes 16 bits, and a masked close frame. -/
def threeFrames : List WebSocketFrame :=
  [⟨0x81, 0x82, [], [0x37, 0xFA, 0x21, 0x3D], [0x7F, 0x93], rfl, rfl, rfl⟩,
    ⟨0x82, 0x7E, [0x00, 0x7E], [], List.replicate 126 0x5A, rfl, rfl, List.length_replicate.trans (by decide)⟩,
    ⟨0x88, 0x82, [], [0x01, 0x02, 0x03, 0x04], [0x02, 0xEA], rfl, rfl, rfl⟩]

/-- The request is cut within its empty line, and each of the frames is cut: the text behind its mask, the long one
within its length, and the close frame behind its first byte. -/
def segmented : Upgrade where
  head := plainHead
  stream := threeFrames.flatMap wire
  inbound := [⟨plainHead ++ [0x0D, 0x0A, 0x0D], by decide, by decide⟩,
    ⟨[0x0A, 0x81, 0x82, 0x37, 0xFA, 0x21, 0x3D], by decide, by decide⟩,
    ⟨[0x7F, 0x93, 0x82, 0x7E, 0x00], by decide, by decide⟩,
    ⟨0x7E :: List.replicate 126 0x5A ++ [0x88], by simp, by simp⟩,
    ⟨[0x82, 0x01, 0x02, 0x03, 0x04, 0x02, 0xEA], by decide, by decide⟩]
  arrives := by decide +kernel
  terminated := Search.find_eq_some_iff.1 (by decide)

theorem followsFrames_of_accept_segmented :
    decoder.frames segmented.stream = (threeFrames, []) ∧
      WebSocketConnection.FollowsFrames ⟨segmented.inbound.drop 2, [0x81, 0x82, 0x37, 0xFA, 0x21, 0x3D]⟩
        segmented.stream :=
  ⟨frames_flatMap_wire threeFrames, followsFrames_of_accept segmented true _ rfl⟩

/-- Behind the header of a frame of five bytes come two, which are a frame by themselves. -/
def truncated : Upgrade := whole plainHead [0x81, 0x05, 0x81, 0x00] (by decide) (by decide)

/-- The call that fails has taken the header: the next one reads the payload as a frame. -/
theorem not_readsFrames : ¬ ∀ (upgrade : Upgrade) (sent : Bool) (connection : WebSocketConnection),
    (accept upgrade.inbound sent).1 = .ok connection →
      ∀ calls, connection.ReadsFrames upgrade.stream calls := by
  intro hall
  have hframes : decoder.frames truncated.stream = ([], truncated.stream) :=
    decoder.frames_of_incomplete rfl
  obtain ⟨hresults, -⟩ := hall truncated true ⟨[], truncated.stream⟩ rfl 2
  rw [hframes] at hresults
  have hsecond : some (Except.ok ()) = some (Except.error WebSocketError.connectionClosed) :=
    congrArg (fun results => results[1]?) hresults
  exact nomatch Option.some.inj hsecond

end Upgrade
end RobotEmu
