import RobotEmu.CliClient

/-! One call of `Client::execute` against any peer. What the connection yields is a list of receives, and a
failure after the last; the result depends on the bytes received alone, not on where they were cut. -/

namespace RobotEmu

/-- The loop of `execute` that receives until a response is decoded. -/
def receiveResponse : List Byte → List (List Byte) → Except CliError Frame
  | received, chunks =>
      match FrameCodec.decode received with
      | .ok decoded => .ok decoded.frame
      | .error .incomplete =>
          match chunks with
          | [] => .error .transportFailure
          | chunk :: chunks => receiveResponse (received ++ chunk) chunks
      | .error _ => .error .protocolFailure

/-- `Client::execute`, when the request is sent or not and the receives yield `chunks`. -/
def execute (command : Command) (sent : Bool) (chunks : List (List Byte)) : Except CliError Outcome :=
  if !sent then .error .transportFailure
  else (receiveResponse [] chunks).bind (interpretResponse command)

/-- The response of a stream that ends. -/
def firstResponse (stream : List Byte) : Except CliError Frame :=
  match FrameCodec.decode stream with
  | .ok decoded => .ok decoded.frame
  | .error .incomplete => .error .transportFailure
  | .error _ => .error .protocolFailure

/-- What is decoded, or refused, from the bytes at hand stands when more arrive. -/
theorem FrameCodec.decode_append_of_ne_incomplete {bytes : List Byte} (more : List Byte)
    (h : decode bytes ≠ .error .incomplete) : decode (bytes ++ more) = decode bytes := by
  cases hdecode : decode bytes with
  | ok result =>
      obtain ⟨hwell, hconsumed, tail, rfl⟩ := decode_eq_ok_iff.1 hdecode
      exact decode_eq_ok_iff.2 ⟨hwell, hconsumed, tail ++ more, List.append_assoc _ _ _⟩
  | error e =>
      apply decode_append_of_error more hdecode
      rintro rfl
      exact h hdecode

/-- The response depends on the bytes received, not on how they were cut. -/
theorem receiveResponse_eq (received : List Byte) (chunks : List (List Byte)) :
    receiveResponse received chunks = firstResponse (received ++ chunks.flatten) := by
  induction chunks generalizing received with
  | nil =>
      rw [List.flatten_nil, List.append_nil, receiveResponse, firstResponse]
  | cons chunk chunks ih =>
      rw [receiveResponse, List.flatten_cons, ← List.append_assoc]
      by_cases hwait : FrameCodec.decode received = .error .incomplete
      · rw [hwait]
        exact ih (received ++ chunk)
      · rw [firstResponse, List.append_assoc, FrameCodec.decode_append_of_ne_incomplete _ hwait]
        cases hdecode : FrameCodec.decode received with
        | ok decoded => rfl
        | error e =>
            cases e with
            | incomplete => exact absurd hdecode hwait
            | invalidMagic | unsupportedVersion | unknownCommandType | payloadTooLarge => rfl

/-- A response that arrives whole is interpreted, whatever pieces it arrives in. -/
theorem execute_of_flatten (command : Command) {frame : Frame} (hwell : FrameCodec.WellFormed frame)
    {chunks : List (List Byte)} (h : chunks.flatten = FrameCodec.encode frame) :
    execute command true chunks = interpretResponse command frame := by
  have hdecode := FrameCodec.decode_encode hwell []
  rw [List.append_nil] at hdecode
  rw [execute, receiveResponse_eq, List.nil_append, h, firstResponse, hdecode]
  rfl

/-! ### What an outcome means -/

/-- The errors that the comment on `execute` lists. -/
def executeErrors : List CliError :=
  [.transportFailure, .protocolFailure, .unexpectedResponseType, .serverReportedError]

/-- With the error that the payload decoders are documented to return. -/
def clientErrors : List CliError := .truncatedPayload :: executeErrors

/-- The first frame of the stream is a response to the command, with a status and the bytes after it. -/
def Answers (stream : List Byte) (command : Command) (status : ResponseStatus) (rest : List Byte) : Prop :=
  ∃ frame n, FrameCodec.decode stream = .ok ⟨frame, n⟩ ∧
    frame.type = (buildRequestFrame command).type ∧ frame.payload = status.byte :: rest

/-- An outcome means a well-formed `Ok` response, with a report exactly if the command asks for one and it
decodes; anything else is one of the documented errors. -/
def Means (documented : List CliError) (stream : List Byte) (command : Command) :
    Except CliError Outcome → Prop
  | .ok outcome => ∃ rest, Answers stream command .ok rest ∧
      (outcome.statusPayload.isSome ↔ command.kind = .status ∧ ∃ report, decodeStatusPayload rest = .ok report)
  | .error e => e ∈ documented

/-- A response whose status is neither `Ok` nor `Error`, and whose report decodes if the command asks for
one. -/
def AnswersUnknown (stream : List Byte) (command : Command) : Prop :=
  ∃ status rest, Answers stream command status rest ∧ status ≠ .ok ∧ status ≠ .error ∧
    (command.kind = .status → ∃ report, decodeStatusPayload rest = .ok report)

/-- A response other than an error whose report, asked for by the command, does not decode. -/
def AnswersTruncated (stream : List Byte) (command : Command) : Prop :=
  command.kind = .status ∧ ∃ status rest, Answers stream command status rest ∧ status ≠ .error ∧
    ∀ report, decodeStatusPayload rest ≠ .ok report

theorem Answers.unique {stream : List Byte} {command : Command} {status status' : ResponseStatus}
    {rest rest' : List Byte} (h : Answers stream command status rest)
    (h' : Answers stream command status' rest') : status = status' ∧ rest = rest' := by
  obtain ⟨frame, n, hdecode, -, hpayload⟩ := h
  obtain ⟨frame', n', hdecode', -, hpayload'⟩ := h'
  obtain ⟨rfl, rfl⟩ := FrameCodec.DecodeResult.mk.inj (Except.ok.inj (hdecode.symm.trans hdecode'))
  obtain ⟨hbyte, hrest⟩ := List.cons.inj (hpayload.symm.trans hpayload')
  exact ⟨congrArg ResponseStatus.mk hbyte, hrest⟩

section
variable {documented : List CliError} {stream : List Byte} {command : Command}

/-- The responses whose result does not mean what it says. -/
def Defect (documented : List CliError) (stream : List Byte) (command : Command) : Prop :=
  AnswersUnknown stream command ∨ .truncatedPayload ∉ documented ∧ AnswersTruncated stream command

/-- A stream that does not answer with a status other than `Error` shows no defect. -/
theorem not_defect (h : ∀ status rest, Answers stream command status rest → status = .error) :
    ¬Defect documented stream command := by
  rintro (⟨status, rest, hanswers, -, hne, -⟩ | ⟨-, -, status, rest, hanswers, hne, -⟩)
  · exact hne (h status rest hanswers)
  · exact hne (h status rest hanswers)

/-- An outcome means what it says exactly if the status of the answer is `Ok`. -/
theorem means_outcome_iff {status : ResponseStatus} {rest : List Byte} {outcome : Outcome}
    (hanswers : Answers stream command status rest) (hne : status ≠ .error)
    (hreport : command.kind = .status → ∃ report, decodeStatusPayload rest = .ok report)
    (hset : outcome.statusPayload.isSome ↔ command.kind = .status) :
    Means documented stream command (.ok outcome) ↔ ¬Defect documented stream command := by
  by_cases hok : status = .ok
  · refine iff_of_true ⟨rest, hok ▸ hanswers, ?_⟩ ?_
    · rw [hset]
      exact ⟨fun hkind => ⟨hkind, hreport hkind⟩, fun h => h.1⟩
    · rintro (⟨status', rest', hanswers', hne', -⟩ | ⟨-, hkind, status', rest', hanswers', -, hundecoded⟩)
      · exact hne' ((hanswers.unique hanswers').1.symm.trans hok)
      · obtain ⟨report, hdecode⟩ := hreport hkind
        rw [(hanswers.unique hanswers').2] at hdecode
        exact hundecoded report hdecode
  · refine iff_of_false ?_ (not_not.2 (.inl ⟨status, rest, hanswers, hok, hne, hreport⟩))
    rintro ⟨rest', hanswers', -⟩
    exact hok (hanswers.unique hanswers').1

/-- What `execute` makes of a response, by its status and, if the command asks for one, its report. -/
theorem means_interpretResponse_iff {frame : Frame} {n : Nat} (hdocumented : executeErrors ⊆ documented)
    (hdecode : FrameCodec.decode stream = .ok ⟨frame, n⟩) :
    Means documented stream command (interpretResponse command frame) ↔
      ¬Defect documented stream command := by
  have hframe : ∀ {status rest}, Answers stream command status rest →
      frame.type = (buildRequestFrame command).type ∧ frame.payload = status.byte :: rest := by
    rintro status rest ⟨frame', n', hdecode', hanswers⟩
    obtain ⟨rfl, -⟩ := FrameCodec.DecodeResult.mk.inj (Except.ok.inj (hdecode.symm.trans hdecode'))
    exact hanswers
  rw [interpretResponse]
  by_cases htype : frame.type ≠ (buildRequestFrame command).type
  · rw [if_pos htype]
    exact iff_of_true (hdocumented (by decide))
      (not_defect fun status rest hanswers => absurd (hframe hanswers).1 htype)
  rw [if_neg htype]
  cases hpayload : frame.payload with
  | nil =>
      refine iff_of_true (hdocumented (by decide)) (not_defect fun status rest hanswers => ?_)
      exact absurd (hpayload.symm.trans (hframe hanswers).2) (by simp)
  | cons byte rest =>
      have hanswers : Answers stream command ⟨byte⟩ rest := ⟨frame, n, hdecode, not_not.1 htype, hpayload⟩
      dsimp only
      by_cases hstatus : (⟨byte⟩ : ResponseStatus) = .error
      · rw [if_pos hstatus]
        refine iff_of_true (hdocumented (by decide)) (not_defect fun status rest' hanswers' => ?_)
        rw [← (hanswers.unique hanswers').1, hstatus]
      rw [if_neg hstatus]
      by_cases hkind : command.kind = .status
      · rw [if_pos hkind]
        cases hreport : decodeStatusPayload rest with
        | ok report => exact means_outcome_iff hanswers hstatus (fun _ => ⟨report, hreport⟩) (by simp [hkind])
        | error e =>
            obtain rfl := decodeStatusPayload_error hreport
            have htruncated : AnswersTruncated stream command := by
              refine ⟨hkind, _, rest, hanswers, hstatus, ?_⟩
              intro report hok
              rw [hreport] at hok
              cases hok
            have hknown : ¬AnswersUnknown stream command := by
              rintro ⟨status', rest', hanswers', -, -, hdecodes⟩
              obtain ⟨report, hok⟩ := hdecodes hkind
              rw [← (hanswers.unique hanswers').2, hreport] at hok
              cases hok
            show .truncatedPayload ∈ documented ↔ _
            rw [Defect, or_iff_right hknown, and_iff_left htruncated, not_not]
      · rw [if_neg hkind]
        exact means_outcome_iff hanswers hstatus (fun h => absurd h hkind) (by simp [hkind])

/-- One call of `execute`: sent or not, with any bytes received in any pieces. -/
theorem means_execute_iff (hdocumented : executeErrors ⊆ documented) (sent : Bool)
    (chunks : List (List Byte)) :
    Means documented chunks.flatten command (execute command sent chunks) ↔
      ¬(sent = true ∧ Defect documented chunks.flatten command) := by
  cases sent with
  | false => exact iff_of_true (hdocumented (by decide)) fun h => absurd h.1 Bool.false_ne_true
  | true =>
      rw [execute, Bool.not_true, if_neg Bool.false_ne_true, receiveResponse_eq, List.nil_append,
        and_iff_right rfl, firstResponse]
      cases hdecode : FrameCodec.decode chunks.flatten with
      | ok decoded => exact means_interpretResponse_iff hdocumented hdecode
      | error e =>
          have hnone : ¬Defect documented chunks.flatten command := by
            refine not_defect ?_
            rintro status rest ⟨frame, n, hok, -⟩
            exact nomatch hdecode.symm.trans hok
          cases e with
          | incomplete => exact iff_of_true (hdocumented (by decide)) hnone
          | invalidMagic | unsupportedVersion | unknownCommandType | payloadTooLarge =>
              exact iff_of_true (hdocumented (by decide)) hnone

end

/-- A result of `execute` means what it says unless the response has a status that is neither `Ok` nor
`Error` (and a report that decodes, if the command asks for one). Of the errors, the one of the report
decoder is documented for the client, but not in the comment on `execute`. -/
theorem execute_means_iff (command : Command) (sent : Bool) (chunks : List (List Byte)) :
    (Means clientErrors chunks.flatten command (execute command sent chunks) ↔
      ¬(sent = true ∧ AnswersUnknown chunks.flatten command)) ∧
    (Means executeErrors chunks.flatten command (execute command sent chunks) ↔
      ¬(sent = true ∧
        (AnswersUnknown chunks.flatten command ∨ AnswersTruncated chunks.flatten command))) := by
  have hclient : executeErrors ⊆ clientErrors := List.subset_cons_self _ _
  have hundocumented : CliError.truncatedPayload ∉ executeErrors := by decide
  constructor
  · rw [means_execute_iff hclient, Defect, or_iff_left fun h => absurd h.1 (not_not.2 (by decide))]
  · rw [means_execute_iff (List.Subset.refl _), Defect, and_iff_right hundocumented]

/-- An `Enable` answered with the status byte 2: an outcome. -/
theorem not_execute_means :
    ¬∀ command sent chunks, Means clientErrors chunks.flatten command (execute command sent chunks) := by
  intro hall
  obtain ⟨rest, ⟨frame, n, hdecode, -, hpayload⟩, -⟩ : Means clientErrors _ ⟨.enable, 0, Binary64.ofInt 0⟩
      (.ok ⟨⟨2⟩, none⟩) := hall ⟨.enable, 0, Binary64.ofInt 0⟩ true [FrameCodec.encode ⟨0, .enable, [2]⟩]
  have hwell : FrameCodec.WellFormed ⟨0, .enable, [2]⟩ :=
    show 1 ≤ FrameCodec.maxPayloadSize.toNat by decide
  have hfirst := FrameCodec.decode_encode hwell []
  obtain ⟨rfl, -⟩ := FrameCodec.DecodeResult.mk.inj (Except.ok.inj (hfirst.symm.trans hdecode))
  exact absurd (List.cons.inj hpayload).1 (by decide)

end RobotEmu
