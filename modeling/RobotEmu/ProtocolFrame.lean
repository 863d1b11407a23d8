import RobotEmu.ByteOrder
import RobotEmu.Framing

/-! The wire frame of the protocol: twelve header bytes (magic, version, flags, command type, payload
length) and the payload. `decodeChecked` is the decoder of the source with every access checked
against the end of its input; since no access leaves the input it is total, and `decode` is its
value. -/

namespace RobotEmu

inductive CommandType where
  | connect
  | getStatus
  | enable
  | disable
  | home
  | moveJoint
  | moveLinear
  | stop
  | emergencyStop
  | getPosition
  | getIO
  | setIO
  | resetFault
  | injectFault
  deriving DecidableEq, Repr

namespace CommandType

/-- The enumerators' values. -/
def raw : CommandType → BitVec 16
  | connect => 1
  | getStatus => 2
  | enable => 3
  | disable => 4
  | home => 5
  | moveJoint => 6
  | moveLinear => 7
  | stop => 8
  | emergencyStop => 9
  | getPosition => 10
  | getIO => 11
  | setIO => 12
  | resetFault => 13
  | injectFault => 14

/-- `isKnownCommandType` and the cast: the enumerator of a raw value that has one. -/
def ofRaw (value : BitVec 16) : Option CommandType :=
  [connect, getStatus, enable, disable, home, moveJoint, moveLinear, stop, emergencyStop, getPosition,
    getIO, setIO, resetFault, injectFault].find? fun type => type.raw = value

@[simp] theorem ofRaw_raw (type : CommandType) : ofRaw type.raw = some type := by
  cases type <;> rfl

theorem raw_of_ofRaw {value : BitVec 16} {type : CommandType} (h : ofRaw value = some type) :
    type.raw = value := by
  simpa using List.find?_some h

end CommandType

structure Frame where
  flags : BitVec 8 := 0
  type : CommandType
  payload : List Byte
  deriving DecidableEq, Repr

inductive ProtocolError where
  | incomplete
  | invalidMagic
  | unsupportedVersion
  | unknownCommandType
  | payloadTooLarge
  deriving DecidableEq, Repr

def kProtocolMagic : BitVec 32 := 0x524F424F#32

def kProtocolVersion : BitVec 8 := 1#8

namespace FrameCodec

/-- Size of the fixed header: 4 + 1 + 1 + 2 + 4. -/
def headerSize : Nat := 12

/-- Cap on the length field, 1 MiB. -/
def maxPayloadSize : BitVec 32 := 1048576#32

def encode (frame : Frame) : List Byte :=
  writeU32BE kProtocolMagic ++ [kProtocolVersion] ++ [frame.flags] ++ writeU16BE frame.type.raw
    ++ writeU32BE (BitVec.ofNat 32 frame.payload.length) ++ frame.payload

@[ext] structure DecodeResult where
  frame : Frame
  bytesConsumed : Nat
  deriving DecidableEq, Repr

/-- `FrameCodec::decode`, `none` where it would read past the end of its input. The check of the type
and its cast are one match. -/
def decodeChecked (bytes : List Byte) : Option (Except ProtocolError DecodeResult) :=
  if bytes.length < headerSize then
    some (.error .incomplete)
  else do
    let magic ← readU32BE (← Span.subspan bytes 0 4)
    if magic ≠ kProtocolMagic then
      return .error .invalidMagic
    else
      let version ← bytes[4]?
      if version ≠ kProtocolVersion then
        return .error .unsupportedVersion
      else
        let flags ← bytes[5]?
        let rawType ← readU16BE (← Span.subspan bytes 6 2)
        match CommandType.ofRaw rawType with
        | none => return .error .unknownCommandType
        | some type =>
            let length ← readU32BE (← Span.subspan bytes 8 4)
            if length > maxPayloadSize then
              return .error .payloadTooLarge
            else if bytes.length < headerSize + length.toNat then
              return .error .incomplete
            else
              let payload ← Span.subspan bytes headerSize length.toNat
              return .ok ⟨⟨flags, type, payload⟩, headerSize + length.toNat⟩

/-! ### The header

The checks of the header depend on its twelve bytes only, so the decoder is those checks followed by
the wait for the payload. -/

/-- What a header says of its frame. -/
structure Header where
  flags : BitVec 8
  type : CommandType
  length : BitVec 32

def Header.encode (header : Header) : List Byte :=
  writeU32BE kProtocolMagic ++ [kProtocolVersion] ++ [header.flags] ++ writeU16BE header.type.raw
    ++ writeU32BE header.length

/-- The checks the decoder makes on the header. -/
def checkHeader : List Byte → Except ProtocolError Header
  | [b0, b1, b2, b3, b4, b5, b6, b7, b8, b9, b10, b11] =>
      if BigEndian.join 32 [b0, b1, b2, b3] ≠ kProtocolMagic then .error .invalidMagic
      else if b4 ≠ kProtocolVersion then .error .unsupportedVersion
      else match CommandType.ofRaw (BigEndian.join 16 [b6, b7]) with
        | none => .error .unknownCommandType
        | some type =>
            if BigEndian.join 32 [b8, b9, b10, b11] > maxPayloadSize then .error .payloadTooLarge
            else .ok ⟨b5, type, BigEndian.join 32 [b8, b9, b10, b11]⟩
  | _ => .error .incomplete

/-- The frame of a checked header, once its payload has arrived. -/
def takePayload (rest : List Byte) (header : Header) : Except ProtocolError DecodeResult :=
  if rest.length < header.length.toNat then .error .incomplete
  else .ok ⟨⟨header.flags, header.type, rest.take header.length.toNat⟩,
    headerSize + header.length.toNat⟩

theorem exists_header {head : List Byte} (h : head.length = headerSize) :
    ∃ b0 b1 b2 b3 b4 b5 b6 b7 b8 b9 b10 b11,
      head = [b0, b1, b2, b3, b4, b5, b6, b7, b8, b9, b10, b11] := by
  match head, h with
  | [b0, b1, b2, b3, b4, b5, b6, b7, b8, b9, b10, b11], _ =>
      exact ⟨b0, b1, b2, b3, b4, b5, b6, b7, b8, b9, b10, b11, rfl⟩

theorem decodeChecked_append {head : List Byte} (h : head.length = headerSize) (rest : List Byte) :
    decodeChecked (head ++ rest) = some ((checkHeader head).bind (takePayload rest)) := by
  obtain ⟨b0, b1, b2, b3, b4, b5, b6, b7, b8, b9, b10, b11, rfl⟩ := exists_header h
  generalize hbytes : [b0, b1, b2, b3, b4, b5, b6, b7, b8, b9, b10, b11] ++ rest = bytes
  have hsize : bytes.length = headerSize + rest.length := by rw [← hbytes, List.length_append, h]
  have hspan : ∀ offset count, offset + count ≤ headerSize + rest.length →
      Span.subspan bytes offset count = some ((bytes.drop offset).take count) :=
    fun _ _ hle => Span.subspan_eq_some (hsize ▸ hle)
  have hmagic : Span.subspan bytes 0 4 = some [b0, b1, b2, b3] := by
    rw [hspan 0 4 (by simp only [headerSize]; omega), ← hbytes]
    rfl
  have hversion : bytes[4]? = some b4 := by rw [← hbytes]; rfl
  have hflags : bytes[5]? = some b5 := by rw [← hbytes]; rfl
  have htype : Span.subspan bytes 6 2 = some [b6, b7] := by
    rw [hspan 6 2 (by simp only [headerSize]; omega), ← hbytes]
    rfl
  have hlength : Span.subspan bytes 8 4 = some [b8, b9, b10, b11] := by
    rw [hspan 8 4 (by simp only [headerSize]; omega), ← hbytes]
    rfl
  have hpayload : ∀ n, ¬rest.length < n → Span.subspan bytes headerSize n = some (rest.take n) := by
    intro n hn
    rw [hspan headerSize n (by omega), ← hbytes]
    rfl
  have hread32 : ∀ b0 b1 b2 b3, readU32BE [b0, b1, b2, b3] = some (BigEndian.join 32 [b0, b1, b2, b3]) :=
    fun _ _ _ _ => readU32BE_eq rfl
  have hread16 : readU16BE [b6, b7] = some (BigEndian.join 16 [b6, b7]) := readU16BE_eq rfl
  rw [decodeChecked, if_neg (by omega), checkHeader]
  simp only [hsize, hmagic, hversion, hflags, htype, hlength, hread32, hread16, Option.bind_eq_bind,
    Option.bind_some, Option.pure_def, Nat.add_lt_add_iff_left]
  cases CommandType.ofRaw (BigEndian.join 16 [b6, b7]) with
  | none => split_ifs <;> rfl
  | some type =>
      dsimp only
      split_ifs with hbad hold hlarge hshort
      · rfl
      · rfl
      · rfl
      · simp only [Except.bind, takePayload, if_pos hshort]
      · simp only [Except.bind, takePayload, if_neg hshort, hpayload _ hshort, Option.bind_some]

/-- Every byte the decoder looks at lies inside its input. -/
theorem decodeChecked_isSome (bytes : List Byte) : (decodeChecked bytes).isSome := by
  by_cases hshort : bytes.length < headerSize
  · rw [decodeChecked, if_pos hshort]
    rfl
  · rw [← List.take_append_drop headerSize bytes, decodeChecked_append (by rw [List.length_take]; omega)]
    rfl

/-- `FrameCodec::decode`. -/
def decode (bytes : List Byte) : Except ProtocolError DecodeResult :=
  (decodeChecked bytes).get (decodeChecked_isSome bytes)

theorem decode_of_short {bytes : List Byte} (h : bytes.length < headerSize) :
    decode bytes = .error .incomplete := by
  simp only [decode, decodeChecked, if_pos h, Option.get_some]

theorem decode_nil : decode [] = .error .incomplete := decode_of_short (by decide)

theorem decode_append {head : List Byte} (h : head.length = headerSize) (rest : List Byte) :
    decode (head ++ rest) = (checkHeader head).bind (takePayload rest) := by
  simp only [decode, decodeChecked_append h, Option.get_some]

theorem Header.length_encode (header : Header) : header.encode.length = headerSize := rfl

/-- The checks accept exactly the encoded headers whose length is within the cap. -/
theorem checkHeader_eq_ok_iff {head : List Byte} (h : head.length = headerSize) {header : Header} :
    checkHeader head = .ok header ↔ head = header.encode ∧ ¬header.length > maxPayloadSize := by
  constructor
  · intro hok
    obtain ⟨b0, b1, b2, b3, b4, b5, b6, b7, b8, b9, b10, b11, rfl⟩ := exists_header h
    rw [checkHeader] at hok
    cases htype : CommandType.ofRaw (BigEndian.join 16 [b6, b7]) with
    | none =>
        rw [htype] at hok
        split_ifs at hok
    | some type =>
        simp only [htype] at hok
        split_ifs at hok with hmagic hversion hlarge
        obtain rfl := Except.ok.inj hok
        rw [not_not] at hmagic hversion
        have hw0 : writeU32BE kProtocolMagic = [b0, b1, b2, b3] := by
          rw [writeU32BE_eq, ← hmagic]
          exact BigEndian.split_join [b0, b1, b2, b3] (Nat.le_refl _)
        have hw6 : writeU16BE type.raw = [b6, b7] := by
          rw [writeU16BE_eq, CommandType.raw_of_ofRaw htype]
          exact BigEndian.split_join [b6, b7] (Nat.le_refl _)
        have hw8 : writeU32BE (BigEndian.join 32 [b8, b9, b10, b11]) = [b8, b9, b10, b11] := by
          rw [writeU32BE_eq]
          exact BigEndian.split_join [b8, b9, b10, b11] (Nat.le_refl _)
        refine ⟨?_, hlarge⟩
        rw [Header.encode, hw0, hw6, hw8, ← hversion]
        rfl
  · rintro ⟨rfl, hlarge⟩
    have hmagic : BigEndian.join 32 (writeU32BE kProtocolMagic) = kProtocolMagic := by
      rw [writeU32BE_eq, BigEndian.join_split (by omega)]
    have htype : BigEndian.join 16 (writeU16BE header.type.raw) = header.type.raw := by
      rw [writeU16BE_eq, BigEndian.join_split (by omega)]
    have hlength : BigEndian.join 32 (writeU32BE header.length) = header.length := by
      rw [writeU32BE_eq, BigEndian.join_split (by omega)]
    simp only [writeU32BE, writeU16BE] at hmagic htype hlength
    simp only [Header.encode, writeU32BE, writeU16BE, List.cons_append, List.nil_append, checkHeader,
      hmagic, htype, hlength, CommandType.ofRaw_raw, if_neg hlarge, ne_eq, not_true_eq_false, if_false]

theorem checkHeader_ne_incomplete {head : List Byte} (h : head.length = headerSize) :
    checkHeader head ≠ .error .incomplete := by
  obtain ⟨b0, b1, b2, b3, b4, b5, b6, b7, b8, b9, b10, b11, rfl⟩ := exists_header h
  rw [checkHeader]
  cases CommandType.ofRaw (BigEndian.join 16 [b6, b7]) with
  | none => split_ifs <;> simp
  | some type =>
      dsimp only
      split_ifs <;> simp

/-! ### What the decoder accepts -/

/-- The frames the format can carry. -/
def WellFormed (frame : Frame) : Prop := frame.payload.length ≤ maxPayloadSize.toNat

theorem encode_eq (frame : Frame) :
    encode frame = Header.encode ⟨frame.flags, frame.type, BitVec.ofNat 32 frame.payload.length⟩
      ++ frame.payload := rfl

theorem length_encode (frame : Frame) : (encode frame).length = headerSize + frame.payload.length := by
  rw [encode_eq, List.length_append, Header.length_encode]

theorem toNat_payloadLength {frame : Frame} (h : WellFormed frame) :
    (BitVec.ofNat 32 frame.payload.length).toNat = frame.payload.length := by
  have hcap : maxPayloadSize.toNat = 1048576 := rfl
  rw [WellFormed, hcap] at h
  rw [BitVec.toNat_ofNat]
  exact Nat.mod_eq_of_lt (by omega)

/-- A well-formed frame is decoded from its encoding, whatever follows it. -/
theorem decode_encode {frame : Frame} (h : WellFormed frame) (tail : List Byte) :
    decode (encode frame ++ tail) = .ok ⟨frame, headerSize + frame.payload.length⟩ := by
  have hlength := toNat_payloadLength h
  have hcap : ¬BitVec.ofNat 32 frame.payload.length > maxPayloadSize := by
    rw [gt_iff_lt, BitVec.lt_def, hlength]
    exact Nat.not_lt.2 h
  rw [encode_eq, List.append_assoc, decode_append (Header.length_encode _),
    (checkHeader_eq_ok_iff (Header.length_encode _)).2 ⟨rfl, hcap⟩]
  simp only [Except.bind, takePayload, hlength, List.take_left]
  rw [if_neg (by rw [List.length_append]; omega)]

/-- Decoding succeeds exactly on the encoding of a well-formed frame followed by anything, and gives
that frame and the length of its encoding. -/
theorem decode_eq_ok_iff {bytes : List Byte} {result : DecodeResult} :
    decode bytes = .ok result ↔ WellFormed result.frame ∧
      result.bytesConsumed = headerSize + result.frame.payload.length ∧
      ∃ tail, bytes = encode result.frame ++ tail := by
  constructor
  · intro h
    by_cases hshort : bytes.length < headerSize
    · rw [decode_of_short hshort] at h
      exact nomatch h
    have hhead : (bytes.take headerSize).length = headerSize := by
      rw [List.length_take]
      omega
    rw [← List.take_append_drop headerSize bytes, decode_append hhead] at h
    generalize hrest : bytes.drop headerSize = rest at h
    cases hcheck : checkHeader (bytes.take headerSize) with
    | error e =>
        rw [hcheck] at h
        exact nomatch h
    | ok header =>
        obtain ⟨hencode, hcap⟩ := (checkHeader_eq_ok_iff hhead).1 hcheck
        rw [hcheck] at h
        simp only [Except.bind, takePayload] at h
        split_ifs at h with hwait
        obtain rfl := Except.ok.inj h
        have hpayload : (rest.take header.length.toNat).length = header.length.toNat := by
          rw [List.length_take]
          omega
        refine ⟨?_, by rw [hpayload], rest.drop header.length.toNat, ?_⟩
        · rw [WellFormed, hpayload]
          exact Nat.le_of_not_lt fun hlt => hcap (BitVec.lt_def.2 hlt)
        · rw [encode_eq]
          simp only [hpayload, BitVec.ofNat_toNat, BitVec.setWidth_eq]
          rw [List.append_assoc, List.take_append_drop, ← hencode, ← hrest, List.take_append_drop]
  · rintro ⟨hwell, hconsumed, tail, rfl⟩
    rw [decode_encode hwell, ← hconsumed]

/-- What is decoded encodes back to the bytes consumed. -/
theorem take_of_decode {bytes : List Byte} {result : DecodeResult} (h : decode bytes = .ok result) :
    bytes.take result.bytesConsumed = encode result.frame := by
  obtain ⟨-, hconsumed, tail, rfl⟩ := decode_eq_ok_iff.1 h
  rw [hconsumed, ← length_encode, List.take_left]

/-- A header that is refused stays refused when more bytes arrive. -/
theorem decode_append_of_error {bytes : List Byte} {e : ProtocolError} (more : List Byte)
    (h : decode bytes = .error e) (he : e ≠ .incomplete) : decode (bytes ++ more) = .error e := by
  by_cases hshort : bytes.length < headerSize
  · rw [decode_of_short hshort] at h
    exact absurd (Except.error.inj h).symm he
  have hhead : (bytes.take headerSize).length = headerSize := by
    rw [List.length_take]
    omega
  rw [← List.take_append_drop headerSize bytes] at h ⊢
  rw [decode_append hhead] at h
  rw [List.append_assoc, decode_append hhead]
  cases hcheck : checkHeader (bytes.take headerSize) with
  | error e' =>
      rw [hcheck] at h
      exact h
  | ok header =>
      rw [hcheck] at h
      simp only [Except.bind, takePayload] at h
      split_ifs at h
      exact absurd (Except.error.inj h).symm he

/-- Bytes that leave the decoder waiting are short of the largest frame. -/
theorem length_lt_of_incomplete {bytes : List Byte} (h : decode bytes = .error .incomplete) :
    bytes.length < headerSize + maxPayloadSize.toNat := by
  by_cases hshort : bytes.length < headerSize
  · omega
  have hhead : (bytes.take headerSize).length = headerSize := by
    rw [List.length_take]
    omega
  rw [← List.take_append_drop headerSize bytes, decode_append hhead] at h
  cases hcheck : checkHeader (bytes.take headerSize) with
  | error e =>
      rw [hcheck] at h
      obtain rfl := Except.error.inj h
      exact absurd hcheck (checkHeader_ne_incomplete hhead)
  | ok header =>
      have hcap := ((checkHeader_eq_ok_iff hhead).1 hcheck).2
      rw [gt_iff_lt, BitVec.lt_def] at hcap
      rw [hcheck] at h
      simp only [Except.bind, takePayload] at h
      split_ifs at h with hwait
      rw [List.length_drop] at hwait
      omega

/-- The format is a bijection on its image: a frame is decoded from its encoding whatever follows, what
is decoded encodes back to the bytes consumed, and no byte past the end of the input is read. -/
theorem encode_decode_bijection :
    (∀ frame tail, WellFormed frame →
      decode (encode frame ++ tail) = .ok ⟨frame, 12 + frame.payload.length⟩) ∧
    (∀ bytes result, decode bytes = .ok result → result.bytesConsumed ≤ bytes.length ∧
      encode result.frame = bytes.take result.bytesConsumed) ∧
    ∀ bytes, decodeChecked bytes = some (decode bytes) := by
  refine ⟨fun frame tail h => decode_encode h tail, fun bytes result h => ?_, fun bytes => ?_⟩
  · refine ⟨?_, (take_of_decode h).symm⟩
    obtain ⟨-, hconsumed, tail, rfl⟩ := decode_eq_ok_iff.1 h
    rw [hconsumed, ← length_encode, List.length_append]
    exact Nat.le_add_right _ _
  · rw [decode, Option.some_get]

/-- A frame with flags and a payload, in front of the first bytes of another frame. -/
theorem encode_decode_bijection_flagged :
    decode (encode ⟨0x8001, .moveJoint, [0x05, 0x3F, 0xF0, 0x00, 0xFF]⟩ ++ [0x52, 0x45, 0x4D]) =
        .ok ⟨⟨0x8001, .moveJoint, [0x05, 0x3F, 0xF0, 0x00, 0xFF]⟩, 17⟩ ∧
      encode ⟨0x8001, .moveJoint, [0x05, 0x3F, 0xF0, 0x00, 0xFF]⟩ =
        (encode ⟨0x8001, .moveJoint, [0x05, 0x3F, 0xF0, 0x00, 0xFF]⟩ ++ [0x52, 0x45, 0x4D]).take 17 := by
  have hdecode := encode_decode_bijection.1 ⟨0x8001, .moveJoint, [0x05, 0x3F, 0xF0, 0x00, 0xFF]⟩
    [0x52, 0x45, 0x4D] (show 5 ≤ maxPayloadSize.toNat by decide)
  exact ⟨hdecode, (encode_decode_bijection.2.1 _ _ hdecode).2⟩

/-! ### Frames of a stream -/

/-- What a receive loop makes of `decode`: a frame, wait for more, or give up. -/
def verdict (bytes : List Byte) : Framing.Verdict Frame :=
  match decode bytes with
  | .ok result => .frame result.frame result.bytesConsumed
  | .error .incomplete => .incomplete
  | .error _ => .malformed

theorem verdict_eq_frame_iff {bytes : List Byte} {frame : Frame} {n : Nat} :
    verdict bytes = .frame frame n ↔ decode bytes = .ok ⟨frame, n⟩ := by
  unfold verdict
  cases decode bytes with
  | ok result => simp [DecodeResult.ext_iff]
  | error e => cases e <;> simp

theorem verdict_eq_incomplete_iff {bytes : List Byte} :
    verdict bytes = .incomplete ↔ decode bytes = .error .incomplete := by
  unfold verdict
  cases decode bytes with
  | ok result => simp
  | error e => cases e <;> simp

theorem verdict_eq_malformed_iff {bytes : List Byte} :
    verdict bytes = .malformed ↔ ∃ e, e ≠ .incomplete ∧ decode bytes = .error e := by
  unfold verdict
  cases decode bytes with
  | ok result => simp
  | error e => cases e <;> simp

theorem verdict_encode {frame : Frame} (h : WellFormed frame) (tail : List Byte) :
    verdict (encode frame ++ tail) = .frame frame (headerSize + frame.payload.length) :=
  verdict_eq_frame_iff.2 (decode_encode h tail)

theorem wellFormed_of_verdict {bytes : List Byte} {frame : Frame} {n : Nat}
    (h : verdict bytes = .frame frame n) : WellFormed frame :=
  (decode_eq_ok_iff.1 (verdict_eq_frame_iff.1 h)).1

/-- The frame decoder as a decoder of streams. -/
def decoder : Framing.Decoder Byte Frame where
  decode := verdict
  consumed_pos h := by
    obtain ⟨-, hconsumed, -⟩ := decode_eq_ok_iff.1 (verdict_eq_frame_iff.1 h)
    simp only [headerSize] at hconsumed
    omega
  consumed_le h := by
    obtain ⟨-, hconsumed, tail, rfl⟩ := decode_eq_ok_iff.1 (verdict_eq_frame_iff.1 h)
    rw [List.length_append, length_encode, ← hconsumed]
    exact Nat.le_add_right _ _
  frame_append more h := by
    obtain ⟨hwell, hconsumed, tail, rfl⟩ := decode_eq_ok_iff.1 (verdict_eq_frame_iff.1 h)
    exact verdict_eq_frame_iff.2
      (decode_eq_ok_iff.2 ⟨hwell, hconsumed, tail ++ more, List.append_assoc _ _ _⟩)
  malformed_append more h := by
    obtain ⟨e, he, herr⟩ := verdict_eq_malformed_iff.1 h
    exact verdict_eq_malformed_iff.2 ⟨e, he, decode_append_of_error more herr he⟩

/-- While the bytes of a well-formed frame arrive, the decoder waits; it decodes the frame, and has
consumed every byte, when the last of them is there. -/
theorem decode_part_of_encode {frame : Frame} (hwell : WellFormed frame) {bytes rest : List Byte}
    (h : bytes ++ rest = encode frame) :
    rest = [] ∧ decode bytes = .ok ⟨frame, bytes.length⟩ ∨
      rest ≠ [] ∧ decode bytes = .error .incomplete := by
  have hwhole := verdict_encode hwell []
  rw [List.append_nil, ← length_encode, ← h] at hwhole
  rcases decoder.decode_part hwhole with ⟨hrest, hdecode⟩ | ⟨hrest, hdecode⟩
  · exact .inl ⟨hrest, verdict_eq_frame_iff.1 hdecode⟩
  · exact .inr ⟨hrest, verdict_eq_incomplete_iff.1 hdecode⟩

end FrameCodec
end RobotEmu
