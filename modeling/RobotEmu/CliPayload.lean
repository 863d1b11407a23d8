import RobotEmu.ByteOrder
import RobotEmu.Cursor

/-! The payloads of requests and responses. A response starts with a status byte; the payload of
`MoveJoint` is a joint index and a double, that of a status report two strings and the joints. The
decoders are written with every access checked, as the frame decoder is. Strings are their bytes. -/

namespace RobotEmu

inductive CliError where
  | invalidHostPort
  | missingCommand
  | unknownCommand
  | missingArgument
  | invalidArgument
  | truncatedPayload
  | transportFailure
  | protocolFailure
  | unexpectedResponseType
  | serverReportedError
  deriving DecidableEq, Repr

/-- A response status is any byte cast to the enumeration; two of them have a name. -/
structure ResponseStatus where
  byte : Byte
  deriving DecidableEq, Repr

def ResponseStatus.ok : ResponseStatus := ⟨0⟩

def ResponseStatus.error : ResponseStatus := ⟨1⟩

structure MoveJointPayload where
  jointIndex : BitVec 8
  targetRadians : Binary64
  deriving DecidableEq

structure JointStatus where
  positionRadians : Binary64
  velocityRadiansPerSecond : Binary64
  deriving DecidableEq

structure StatusPayload where
  robotName : List Byte
  controllerStateName : List Byte
  joints : List JointStatus
  deriving DecidableEq

/-! ### `MoveJoint` -/

/-- A `u8` joint index and an `f64` target. -/
def kEncodedSize : Nat := 1 + 8

def encodeMoveJointPayload (payload : MoveJointPayload) : List Byte :=
  [payload.jointIndex] ++ writeF64BE payload.targetRadians

def decodeMoveJointPayloadChecked (bytes : List Byte) : Option (Except CliError MoveJointPayload) :=
  if bytes.length < kEncodedSize then
    some (.error .truncatedPayload)
  else do
    let jointIndex ← bytes[0]?
    let targetRadians ← readF64BE (← Span.subspan bytes 1 8)
    return .ok ⟨jointIndex, targetRadians⟩

theorem decodeMoveJointPayloadChecked_cons (index : Byte) {rest : List Byte} (h : 8 ≤ rest.length) :
    decodeMoveJointPayloadChecked (index :: rest) =
      some (.ok ⟨index, ⟨BigEndian.join 64 (rest.take 8)⟩⟩) := by
  have hspan : Span.subspan (index :: rest) 1 8 = some (rest.take 8) :=
    Span.subspan_eq_some (by rw [List.length_cons]; omega)
  have hread : readF64BE (rest.take 8) = some ⟨BigEndian.join 64 (rest.take 8)⟩ :=
    readF64BE_eq (by rw [List.length_take]; omega)
  rw [decodeMoveJointPayloadChecked, if_neg (by rw [List.length_cons, kEncodedSize]; omega), hspan]
  simp [hread]

theorem decodeMoveJointPayloadChecked_isSome (bytes : List Byte) :
    (decodeMoveJointPayloadChecked bytes).isSome := by
  by_cases hshort : bytes.length < kEncodedSize
  · rw [decodeMoveJointPayloadChecked, if_pos hshort]
    rfl
  · cases bytes with
    | nil => exact absurd (by decide) hshort
    | cons index rest =>
        rw [List.length_cons, kEncodedSize] at hshort
        rw [decodeMoveJointPayloadChecked_cons index (by omega)]
        rfl

def decodeMoveJointPayload (bytes : List Byte) : Except CliError MoveJointPayload :=
  (decodeMoveJointPayloadChecked bytes).get (decodeMoveJointPayloadChecked_isSome bytes)

/-- A payload is decoded from its encoding, whatever follows it. -/
theorem decodeMoveJointPayload_encode (payload : MoveJointPayload) (tail : List Byte) :
    decodeMoveJointPayload (encodeMoveJointPayload payload ++ tail) = .ok payload := by
  have hlength : (writeF64BE payload.targetRadians).length = 8 := rfl
  have htake : (writeF64BE payload.targetRadians ++ tail).take 8 = writeF64BE payload.targetRadians := by
    rw [← hlength, List.take_left]
  rw [encodeMoveJointPayload, List.append_assoc, List.singleton_append]
  simp only [decodeMoveJointPayload, decodeMoveJointPayloadChecked_cons payload.jointIndex
    (show 8 ≤ (writeF64BE payload.targetRadians ++ tail).length by rw [List.length_append]; omega),
    Option.get_some, htake]
  rw [writeF64BE_eq, BigEndian.join_split (by omega)]

theorem decodeMoveJointPayload_encoded (payload : MoveJointPayload) :
    decodeMoveJointPayload (encodeMoveJointPayload payload) = .ok payload := by
  rw [← List.append_nil (encodeMoveJointPayload payload), decodeMoveJointPayload_encode]

/-! ### Status reports -/

def encodeJointStatus (joint : JointStatus) : List Byte :=
  writeF64BE joint.positionRadians ++ writeF64BE joint.velocityRadiansPerSecond

def encodeStatusPayload (status : StatusPayload) : List Byte :=
  writeU16BE (BitVec.ofNat 16 status.robotName.length) ++ status.robotName
    ++ writeU16BE (BitVec.ofNat 16 status.controllerStateName.length) ++ status.controllerStateName
    ++ writeU16BE (BitVec.ofNat 16 status.joints.length) ++ status.joints.flatMap encodeJointStatus

/-- The loop over the joints, from an offset on. -/
def decodeJoints (bytes : List Byte) : Nat → Nat → Option (Except CliError (List JointStatus))
  | 0, _ => some (.ok [])
  | count + 1, offset =>
      if bytes.length - offset < 16 then
        some (.error .truncatedPayload)
      else do
        let position ← readF64BE (← Span.subspan bytes offset 8)
        let velocity ← readF64BE (← Span.subspan bytes (offset + 8) 8)
        match ← decodeJoints bytes count (offset + 16) with
        | .error e => return .error e
        | .ok joints => return .ok (⟨position, velocity⟩ :: joints)

/-- `decodeStatusPayload`, `none` where it would read past the end of its input. The check
`needBytes(n)` stands before each read. -/
def decodeStatusPayloadChecked (bytes : List Byte) : Option (Except CliError StatusPayload) :=
  if bytes.length < 2 then
    some (.error .truncatedPayload)
  else do
    let nameLength ← readU16BE (← Span.subspan bytes 0 2)
    if bytes.length - 2 < nameLength.toNat then
      return .error .truncatedPayload
    else
      let robotName ← Span.subspan bytes 2 nameLength.toNat
      let offset := 2 + nameLength.toNat
      if bytes.length - offset < 2 then
        return .error .truncatedPayload
      else
        let stateNameLength ← readU16BE (← Span.subspan bytes offset 2)
        let offset := offset + 2
        if bytes.length - offset < stateNameLength.toNat then
          return .error .truncatedPayload
        else
          let stateName ← Span.subspan bytes offset stateNameLength.toNat
          let offset := offset + stateNameLength.toNat
          if bytes.length - offset < 2 then
            return .error .truncatedPayload
          else
            let jointCount ← readU16BE (← Span.subspan bytes offset 2)
            match ← decodeJoints bytes jointCount.toNat (offset + 2) with
            | .error e => return .error e
            | .ok joints => return .ok ⟨robotName, stateName, joints⟩

/-! ### The decoder as a walk

The same parser with its offset as a cursor: the check `needBytes` stands before each read, and its
subtraction is checked too. -/

open Cursor (needBytes peek advance lift)

def readU16 : Cursor CliError (BitVec 16) := do
  needBytes .truncatedPayload 2
  let value ← lift (readU16BE (← peek 0 2))
  advance 2
  return value

def readString (length : Nat) : Cursor CliError (List Byte) := do
  needBytes .truncatedPayload length
  let text ← peek 0 length
  advance length
  return text

def readJoint : Cursor CliError JointStatus := do
  needBytes .truncatedPayload 16
  let position ← lift (readF64BE (← peek 0 8))
  let velocity ← lift (readF64BE (← peek 8 8))
  advance 16
  return ⟨position, velocity⟩

def readStatusPayload : Cursor CliError StatusPayload := do
  let nameLength ← readU16
  let robotName ← readString nameLength.toNat
  let stateNameLength ← readU16
  let stateName ← readString stateNameLength.toNat
  let jointCount ← readU16
  let joints ← Cursor.repeated readJoint jointCount.toNat
  return ⟨robotName, stateName, joints⟩

theorem exists_readU16BE {bytes : List Byte} {offset : Nat} (h : offset + 2 ≤ bytes.length) :
    ∃ value, readU16BE ((bytes.drop offset).take 2) = some value ∧
      writeU16BE value = (bytes.drop offset).take 2 := by
  have hlength : ((bytes.drop offset).take 2).length = 2 := by
    rw [List.length_take, List.length_drop]
    omega
  refine ⟨_, readU16BE_eq hlength, ?_⟩
  have hsplit := BigEndian.split_join (w := 16) ((bytes.drop offset).take 2) (by omega)
  rw [hlength] at hsplit
  rw [writeU16BE_eq, hsplit]

theorem exists_readF64BE {bytes : List Byte} {offset : Nat} (h : offset + 8 ≤ bytes.length) :
    ∃ value, readF64BE ((bytes.drop offset).take 8) = some value ∧
      writeF64BE value = (bytes.drop offset).take 8 := by
  have hlength : ((bytes.drop offset).take 8).length = 8 := by
    rw [List.length_take, List.length_drop]
    omega
  refine ⟨_, readF64BE_eq hlength, ?_⟩
  have hsplit := BigEndian.split_join (w := 64) ((bytes.drop offset).take 8) (by omega)
  rw [hlength] at hsplit
  rw [writeF64BE_eq]
  exact hsplit

theorem readU16_of_le {bytes : List Byte} {offset : Nat} {value : BitVec 16}
    (h : offset + 2 ≤ bytes.length) (hvalue : readU16BE ((bytes.drop offset).take 2) = some value) :
    readU16.run bytes offset = some (.ok (value, offset + 2)) := by
  rw [readU16, Cursor.run_bind_of_ok (Cursor.run_needBytes_of_le h), Cursor.run_bind_of_ok (Cursor.run_peek_of_le h),
    Nat.add_zero, hvalue]
  rfl

theorem readString_of_le {bytes : List Byte} {offset length : Nat} (h : offset + length ≤ bytes.length) :
    (readString length).run bytes offset = some (.ok ((bytes.drop offset).take length, offset + length)) := by
  rw [readString, Cursor.run_bind_of_ok (Cursor.run_needBytes_of_le h), Cursor.run_bind_of_ok (Cursor.run_peek_of_le h)]
  rfl

theorem readJoint_of_le {bytes : List Byte} {offset : Nat} {position velocity : Binary64}
    (h : offset + 16 ≤ bytes.length)
    (hposition : readF64BE ((bytes.drop offset).take 8) = some position)
    (hvelocity : readF64BE ((bytes.drop (offset + 8)).take 8) = some velocity) :
    readJoint.run bytes offset = some (.ok (⟨position, velocity⟩, offset + 16)) := by
  rw [readJoint, Cursor.run_bind_of_ok (Cursor.run_needBytes_of_le h),
    Cursor.run_bind_of_ok (Cursor.run_peek_of_le (by omega)), Nat.add_zero, hposition,
    Cursor.run_bind_of_ok (Cursor.run_lift_some position bytes offset),
    Cursor.run_bind_of_ok (Cursor.run_peek_of_le (by omega)), hvelocity]
  rfl

theorem readU16_of_short {bytes : List Byte} {offset : Nat} (hoffset : offset ≤ bytes.length)
    (h : bytes.length < offset + 2) : readU16.run bytes offset = some (.error .truncatedPayload) :=
  Cursor.run_checked_of_gt hoffset h _

theorem readString_of_short {bytes : List Byte} {offset length : Nat} (hoffset : offset ≤ bytes.length)
    (h : bytes.length < offset + length) :
    (readString length).run bytes offset = some (.error .truncatedPayload) :=
  Cursor.run_checked_of_gt hoffset h _

theorem readJoint_of_short {bytes : List Byte} {offset : Nat} (hoffset : offset ≤ bytes.length)
    (h : bytes.length < offset + 16) : readJoint.run bytes offset = some (.error .truncatedPayload) :=
  Cursor.run_checked_of_gt hoffset h _

/-- The parser is the walk from the start of its input. -/
theorem decodeJoints_eq (bytes : List Byte) (count : Nat) {offset : Nat} (h : offset ≤ bytes.length) :
    decodeJoints bytes count offset =
      ((Cursor.repeated readJoint count).run bytes offset).map (Except.map Prod.fst) := by
  induction count generalizing offset with
  | zero => rfl
  | succ count ih =>
      rw [decodeJoints, Cursor.repeated]
      by_cases hshort : bytes.length - offset < 16
      · rw [if_pos hshort, Cursor.run_bind_of_error (readJoint_of_short h (by omega))]
        rfl
      · obtain ⟨position, hposition, -⟩ := exists_readF64BE (show offset + 8 ≤ bytes.length by omega)
        obtain ⟨velocity, hvelocity, -⟩ :=
          exists_readF64BE (show offset + 8 + 8 ≤ bytes.length by omega)
        rw [if_neg hshort, Cursor.run_bind_of_ok (readJoint_of_le (by omega) hposition hvelocity),
          Cursor.run_bind, Span.subspan_eq_some (by omega), Span.subspan_eq_some (by omega)]
        simp only [Option.bind_eq_bind, Option.bind_some, hposition, hvelocity,
          ih (show offset + 16 ≤ bytes.length by omega)]
        cases (Cursor.repeated readJoint count).run bytes (offset + 16) with
        | none => rfl
        | some result => cases result <;> rfl

theorem decodeStatusPayloadChecked_eq (bytes : List Byte) :
    decodeStatusPayloadChecked bytes = (readStatusPayload.run bytes 0).map (Except.map Prod.fst) := by
  rw [decodeStatusPayloadChecked, readStatusPayload]
  by_cases hstart : bytes.length < 2
  · rw [if_pos hstart, Cursor.run_bind_of_error (readU16_of_short (Nat.zero_le _) (by omega))]
    rfl
  obtain ⟨nameLength, hname, -⟩ := exists_readU16BE (show 0 + 2 ≤ bytes.length by omega)
  rw [if_neg hstart, Cursor.run_bind_of_ok (readU16_of_le (by omega) hname), Span.subspan_eq_some (by omega)]
  simp only [hname, Option.bind_eq_bind, Option.bind_some]
  by_cases hnameLength : bytes.length - 2 < nameLength.toNat
  · rw [if_pos hnameLength, Cursor.run_bind_of_error (readString_of_short (by omega) (by omega))]
    rfl
  rw [if_neg hnameLength, Cursor.run_bind_of_ok (readString_of_le (by omega)),
    Span.subspan_eq_some (by omega), Option.bind_some]
  by_cases hstateStart : bytes.length - (2 + nameLength.toNat) < 2
  · rw [if_pos hstateStart, Cursor.run_bind_of_error (readU16_of_short (by omega) (by omega))]
    rfl
  obtain ⟨stateLength, hstate, -⟩ :=
    exists_readU16BE (show 2 + nameLength.toNat + 2 ≤ bytes.length by omega)
  rw [if_neg hstateStart, Cursor.run_bind_of_ok (readU16_of_le (by omega) (by rwa [Nat.zero_add])),
    Span.subspan_eq_some (by omega)]
  simp only [hstate, Option.bind_some]
  by_cases hstateLength : bytes.length - (2 + nameLength.toNat + 2) < stateLength.toNat
  · rw [if_pos hstateLength, Cursor.run_bind_of_error (readString_of_short (by omega) (by omega))]
    rfl
  rw [if_neg hstateLength, Cursor.run_bind_of_ok (readString_of_le (by omega)),
    Span.subspan_eq_some (by omega), Option.bind_some]
  by_cases hcountStart : bytes.length - (2 + nameLength.toNat + 2 + stateLength.toNat) < 2
  · rw [if_pos hcountStart, Cursor.run_bind_of_error (readU16_of_short (by omega) (by omega))]
    rfl
  obtain ⟨count, hcount, -⟩ := exists_readU16BE
    (show 2 + nameLength.toNat + 2 + stateLength.toNat + 2 ≤ bytes.length by omega)
  rw [if_neg hcountStart, Cursor.run_bind_of_ok (readU16_of_le (by omega) (by rwa [Nat.zero_add])),
    Span.subspan_eq_some (by omega)]
  simp only [hcount, Option.bind_some]
  rw [decodeJoints_eq bytes count.toNat (by omega), Cursor.run_bind, Nat.zero_add]
  cases (Cursor.repeated readJoint count.toNat).run bytes
      (2 + nameLength.toNat + 2 + stateLength.toNat + 2) with
  | none => rfl
  | some result => cases result <;> rfl

/-! ### The walk undoes the encoder -/

theorem codes_readU16 : Cursor.Codes .truncatedPayload readU16 writeU16BE fun _ => True := by
  apply Cursor.Codes.checked
  · exact fun _ _ => rfl
  · intro value value' _ _ heq
    have hread := readU16BE_writeU16BE value
    rw [heq, readU16BE_writeU16BE] at hread
    exact (Option.some.inj hread).symm
  · intro bytes offset hroom
    obtain ⟨value, hvalue, hwrite⟩ := exists_readU16BE hroom
    refine ⟨value, trivial, hwrite, ?_⟩
    rw [← readU16_of_le hroom hvalue, readU16, Cursor.run_bind_of_ok (Cursor.run_needBytes_of_le hroom)]

theorem codes_readString (length : Nat) :
    Cursor.Codes .truncatedPayload (readString length) id fun text => text.length = length := by
  apply Cursor.Codes.checked
  · exact fun _ hlength => hlength
  · exact fun _ _ _ _ heq => heq
  · intro bytes offset hroom
    refine ⟨(bytes.drop offset).take length, ?_, rfl, ?_⟩
    · rw [List.length_take, List.length_drop]
      omega
    · rw [← readString_of_le hroom, readString,
        Cursor.run_bind_of_ok (Cursor.run_needBytes_of_le hroom)]

theorem codes_readJoint : Cursor.Codes .truncatedPayload readJoint encodeJointStatus fun _ => True := by
  apply Cursor.Codes.checked
  · exact fun _ _ => rfl
  · intro joint joint' _ _ heq
    have hlength : (writeF64BE joint.positionRadians).length
        = (writeF64BE joint'.positionRadians).length := rfl
    obtain ⟨hposition, hvelocity⟩ := List.append_inj heq hlength
    have hread := readF64BE_writeF64BE joint.positionRadians
    have hread' := readF64BE_writeF64BE joint.velocityRadiansPerSecond
    rw [hposition, readF64BE_writeF64BE] at hread
    rw [hvelocity, readF64BE_writeF64BE] at hread'
    cases joint
    cases joint'
    rw [JointStatus.mk.injEq]
    exact ⟨(Option.some.inj hread).symm, (Option.some.inj hread').symm⟩
  · intro bytes offset hroom
    obtain ⟨position, hposition, hwrite⟩ := exists_readF64BE (show offset + 8 ≤ bytes.length by omega)
    obtain ⟨velocity, hvelocity, hwrite'⟩ :=
      exists_readF64BE (show offset + 8 + 8 ≤ bytes.length by omega)
    refine ⟨⟨position, velocity⟩, trivial, ?_, ?_⟩
    · rw [encodeJointStatus, hwrite, hwrite', ← List.drop_drop, ← List.take_add]
    · rw [← readJoint_of_le hroom hposition hvelocity, readJoint,
        Cursor.run_bind_of_ok (Cursor.run_needBytes_of_le hroom)]

/-- A part that stands behind its own size. -/
theorem Cursor.Codes.counted {β : Type} {f : Nat → Cursor CliError β} {size : β → Nat}
    {rest : β → List Byte} {fits : β → Prop}
    (hf : ∀ n, Cursor.Codes .truncatedPayload (f n) rest fun b => fits b ∧ size b = n) :
    Cursor.Codes .truncatedPayload (do let n ← readU16; f n.toNat)
      (fun b => writeU16BE (BitVec.ofNat 16 (size b)) ++ rest b) fun b => fits b ∧ size b ≤ 65535 := by
  refine codes_readU16.bind (fun n _ => hf n.toNat) (fun b => ?_) (fun n b _ hb => ?_)
  · constructor
    · rintro ⟨hb, hsize⟩
      refine ⟨BitVec.ofNat 16 (size b), trivial, hb, ?_⟩
      rw [BitVec.toNat_ofNat, Nat.mod_eq_of_lt (by omega)]
    · rintro ⟨n, -, hb, hsize⟩
      have hn := n.isLt
      exact ⟨hb, by omega⟩
  · rw [hb.2, BitVec.ofNat_toNat, BitVec.setWidth_eq]

/-- A text of known length, kept as a part of the whole. -/
theorem Cursor.Codes.text {β : Type} {f : List Byte → Cursor CliError β} {part : β → List Byte}
    {rest : β → List Byte} {fits : β → Prop}
    (hf : ∀ text, Cursor.Codes .truncatedPayload (f text) rest fun b => fits b ∧ part b = text)
    (length : Nat) :
    Cursor.Codes .truncatedPayload (do let text ← readString length; f text)
      (fun b => part b ++ rest b) fun b => fits b ∧ (part b).length = length := by
  refine (codes_readString length).bind (fun text _ => hf text) (fun b => ?_) (fun text b _ hb => ?_)
  · constructor
    · rintro ⟨hb, hlength⟩
      exact ⟨part b, hlength, hb, rfl⟩
    · rintro ⟨text, hlength, hb, rfl⟩
      exact ⟨hb, hlength⟩
  · rw [hb.2]
    rfl

/-- The counts of a report fit their sixteen bits. -/
def StatusPayload.Countable (status : StatusPayload) : Prop :=
  status.robotName.length ≤ 65535 ∧ status.controllerStateName.length ≤ 65535 ∧
    status.joints.length ≤ 65535

instance (status : StatusPayload) : Decidable status.Countable := inferInstanceAs (Decidable (_ ∧ _ ∧ _))

theorem codes_readStatusPayload :
    Cursor.Codes .truncatedPayload readStatusPayload encodeStatusPayload StatusPayload.Countable := by
  have hjoints : ∀ name state count, Cursor.Codes .truncatedPayload
      (do let joints ← Cursor.repeated readJoint count; return (⟨name, state, joints⟩ : StatusPayload))
      (fun status => status.joints.flatMap encodeJointStatus)
      fun status => (status.robotName = name ∧ status.controllerStateName = state) ∧
        status.joints.length = count := by
    intro name state count
    refine (codes_readJoint.repeated count).bind (fun joints _ => Cursor.Codes.pure _ _)
      (fun status => ?_) (fun joints status _ hstatus => ?_)
    · constructor
      · rintro ⟨⟨rfl, rfl⟩, hcount⟩
        exact ⟨status.joints, ⟨hcount, fun _ _ => trivial⟩, rfl⟩
      · rintro ⟨joints, ⟨hcount, -⟩, rfl⟩
        exact ⟨⟨rfl, rfl⟩, hcount⟩
    · rw [hstatus, List.append_nil]
  have hstate := fun name => Cursor.Codes.counted (Cursor.Codes.text fun state =>
    (Cursor.Codes.counted (hjoints name state)).congr (fun _ => and_right_comm) fun _ _ => rfl)
  have hfits : ∀ name (status : StatusPayload),
      (status.joints.length ≤ 65535 ∧ status.controllerStateName.length ≤ 65535) ∧
          status.robotName = name ↔
        (status.robotName = name ∧ status.joints.length ≤ 65535) ∧
          status.controllerStateName.length ≤ 65535 := fun _ _ => and_comm.trans and_assoc.symm
  have hname := Cursor.Codes.counted (Cursor.Codes.text fun name =>
    (hstate name).congr (hfits name) fun _ _ => rfl)
  refine hname.congr (fun status => ?_) (fun status _ => ?_)
  · rw [StatusPayload.Countable, and_comm, and_comm (a := status.controllerStateName.length ≤ 65535)]
  · simp only [encodeStatusPayload, List.append_assoc]

theorem decodeStatusPayloadChecked_isSome (bytes : List Byte) :
    (decodeStatusPayloadChecked bytes).isSome := by
  rw [decodeStatusPayloadChecked_eq, Option.isSome_map]
  exact codes_readStatusPayload.isSome (Nat.zero_le _)

def decodeStatusPayload (bytes : List Byte) : Except CliError StatusPayload :=
  (decodeStatusPayloadChecked bytes).get (decodeStatusPayloadChecked_isSome bytes)

theorem decodeStatusPayload_of_run {bytes : List Byte} {result : Except CliError (StatusPayload × Nat)}
    (h : readStatusPayload.run bytes 0 = some result) :
    decodeStatusPayload bytes = result.map Prod.fst := by
  have hchecked := decodeStatusPayloadChecked_eq bytes
  rw [h, Option.map_some] at hchecked
  simp only [decodeStatusPayload, hchecked, Option.get_some]

/-- A report whose counts fit their sixteen bits is decoded from its encoding, whatever follows it. -/
theorem decodeStatusPayload_append {status : StatusPayload} (hstatus : status.Countable)
    (tail : List Byte) : decodeStatusPayload (encodeStatusPayload status ++ tail) = .ok status :=
  decodeStatusPayload_of_run
    (codes_readStatusPayload.read_of_written (Nat.zero_le _) hstatus (List.prefix_append _ _))

theorem decodeStatusPayload_of_cut {status : StatusPayload} (hstatus : status.Countable)
    {bytes : List Byte} (hcut : bytes <+: encodeStatusPayload status)
    (hne : bytes ≠ encodeStatusPayload status) :
    decodeStatusPayload bytes = .error .truncatedPayload :=
  decodeStatusPayload_of_run
    (codes_readStatusPayload.read_of_cut (Nat.zero_le _) hstatus hcut hne)

/-- A decoded report is the one written at the start of the input, where the walk ends. -/
theorem run_of_decodeStatusPayload {bytes : List Byte} {status : StatusPayload}
    (h : decodeStatusPayload bytes = .ok status) :
    ∃ consumed, readStatusPayload.run bytes 0 = some (.ok (status, consumed)) ∧
      consumed ≤ bytes.length ∧ status.Countable ∧ bytes.take consumed = encodeStatusPayload status := by
  obtain ⟨result, hresult⟩ :=
    Option.isSome_iff_exists.1 (codes_readStatusPayload.isSome (Nat.zero_le bytes.length))
  rw [decodeStatusPayload_of_run hresult] at h
  cases result with
  | error e => cases h
  | ok value =>
      obtain ⟨status', consumed⟩ := value
      obtain rfl : status' = status := Except.ok.inj h
      obtain ⟨hfits, hwritten, rfl⟩ :=
        codes_readStatusPayload.written_of_read (Nat.zero_le _) hresult
      rw [Nat.zero_add] at hresult
      rw [List.drop_zero] at hwritten
      exact ⟨_, hresult, hwritten.length_le, hfits, (List.prefix_iff_eq_take.1 hwritten).symm⟩

/-- The parser fails in one way. -/
theorem decodeStatusPayload_error {bytes : List Byte} {e : CliError}
    (h : decodeStatusPayload bytes = .error e) : e = .truncatedPayload := by
  obtain ⟨status, -, -, hresult⟩ | ⟨-, hresult⟩ := codes_readStatusPayload.reads (Nat.zero_le bytes.length)
  · rw [decodeStatusPayload_of_run hresult] at h
    cases h
  · rw [decodeStatusPayload_of_run hresult] at h
    exact (Except.error.inj h).symm

theorem length_flatMap_encodeJointStatus (joints : List JointStatus) :
    (joints.flatMap encodeJointStatus).length = 16 * joints.length := by
  induction joints with
  | nil => rfl
  | cons joint joints ih =>
      have hjoint : (encodeJointStatus joint).length = 16 := rfl
      rw [List.flatMap_cons, List.length_append, hjoint, ih, List.length_cons]
      omega

theorem length_encodeStatusPayload (status : StatusPayload) :
    (encodeStatusPayload status).length = 6 + status.robotName.length
      + status.controllerStateName.length + 16 * status.joints.length := by
  simp only [encodeStatusPayload, List.length_append, length_flatMap_encodeJointStatus, writeU16BE,
    List.length_cons, List.length_nil]
  omega

/-- **The codec of status reports.** A report is decoded from its encoding, whatever follows; an encoding
cut short is rejected as truncated. Whatever the input, every read stays inside it and every remaining
length is a difference of what is there, and an accepted report is the encoding it was read from. -/
theorem decodeStatusPayload_codec :
    (∀ status tail, StatusPayload.Countable status →
      decodeStatusPayload (encodeStatusPayload status ++ tail) = .ok status) ∧
    (∀ status bytes, StatusPayload.Countable status → bytes <+: encodeStatusPayload status →
      bytes ≠ encodeStatusPayload status → decodeStatusPayload bytes = .error .truncatedPayload) ∧
    (∀ bytes, (decodeStatusPayloadChecked bytes).isSome ∧ ∃ result,
      readStatusPayload.run bytes 0 = some result ∧
        decodeStatusPayload bytes = result.map Prod.fst) ∧
    ∀ bytes status, decodeStatusPayload bytes = .ok status →
      ∃ consumed, readStatusPayload.run bytes 0 = some (.ok (status, consumed)) ∧
        consumed ≤ bytes.length ∧ status.Countable ∧
        bytes.take consumed = encodeStatusPayload status := by
  refine ⟨fun _ tail hstatus => decodeStatusPayload_append hstatus tail,
    fun _ _ hstatus hcut hne => decodeStatusPayload_of_cut hstatus hcut hne,
    fun bytes => ⟨decodeStatusPayloadChecked_isSome bytes, ?_⟩, fun _ _ => run_of_decodeStatusPayload⟩
  obtain ⟨result, hresult⟩ :=
    Option.isSome_iff_exists.1 (codes_readStatusPayload.isSome (Nat.zero_le bytes.length))
  exact ⟨result, hresult, decodeStatusPayload_of_run hresult⟩

theorem decodeStatusPayload_codec_oneJoint :
    decodeStatusPayload
        (encodeStatusPayload ⟨bytesOf "arm", bytesOf "Moving", [⟨⟨0⟩, ⟨1⟩⟩]⟩ ++ bytesOf "tail") =
      .ok ⟨bytesOf "arm", bytesOf "Moving", [⟨⟨0⟩, ⟨1⟩⟩]⟩ :=
  decodeStatusPayload_codec.1 _ _ (by decide)

end RobotEmu
