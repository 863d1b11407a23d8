import RobotEmu.CliClient
import RobotEmu.FromChars

/-! `command.cpp`: the arguments of an invocation become a command. What is accepted is said by a grammar of
its own, and the error of everything else by the first of its rules that fails. -/

namespace RobotEmu

open FromChars

/-- `std::string_view::rfind` of a character. -/
def rfind (c : Byte) : List Byte → Option Nat
  | [] => none
  | d :: text =>
      match rfind c text with
      | some index => some (index + 1)
      | none => if d = c then some 0 else none

def colon : Byte := 0x3A

def splitHostPort (hostPort : List Byte) : Except CliError (List Byte × BitVec 16) :=
  match rfind RobotEmu.colon hostPort with
  | none => .error .invalidHostPort
  | some colon =>
      if colon = 0 ∨ colon = hostPort.length - 1 then .error .invalidHostPort
      else
        let result := unsigned (hostPort.drop (colon + 1)) (0 : BitVec 16)
        if result.ec ≠ .ok ∨ result.rest ≠ [] then .error .invalidHostPort
        else .ok (hostPort.take colon, result.value)

def parseDouble (text : List Byte) : Except CliError Binary64 :=
  let result := FromChars.double text (Arith.ofInt 0)
  if result.ec ≠ .ok ∨ result.rest ≠ [] then .error .invalidArgument else .ok result.value

def parseJointIndex (text : List Byte) : Except CliError (BitVec 8) :=
  let result := unsigned text (0 : BitVec 32)
  if result.ec ≠ .ok ∨ result.rest ≠ [] ∨ result.value > 255 then .error .invalidArgument
  else .ok (result.value.setWidth 8)

structure ParsedInvocation where
  host : List Byte
  port : BitVec 16
  command : Command

/-- The branch of `parseArgs` for `move-joint`. Arguments after the second are not looked at. -/
def parseMoveJoint : List (List Byte) → Except CliError Command
  | index :: degrees :: _ => do
      let jointIndex ← parseJointIndex index
      let targetDegrees ← parseDouble degrees
      return ⟨.moveJoint, jointIndex, targetDegrees⟩
  | _ => .error .missingArgument

/-- The part of `parseArgs` after the address: the name of a command and its arguments. -/
def parseCommand (commandName : List Byte) (commandArgs : List (List Byte)) : Except CliError Command :=
  if commandName = bytesOf "status" then .ok { kind := .status }
  else if commandName = bytesOf "enable" then .ok { kind := .enable }
  else if commandName = bytesOf "disable" then .ok { kind := .disable }
  else if commandName = bytesOf "home" then .ok { kind := .home }
  else if commandName = bytesOf "stop" then .ok { kind := .stop }
  else if commandName = bytesOf "estop" then .ok { kind := .emergencyStop }
  else if commandName = bytesOf "move-joint" then parseMoveJoint commandArgs
  else .error .unknownCommand

def parseArgs : List (List Byte) → Except CliError ParsedInvocation
  | [] => .error .invalidHostPort
  | [_] => .error .missingCommand
  | hostPort :: commandName :: commandArgs => do
      let (host, port) ← splitHostPort hostPort
      let command ← parseCommand commandName commandArgs
      return ⟨host, port, command⟩

/-! ### The grammar -/

/-- A row of digits and the number it spells. -/
def IsDecimal (text : List Byte) (number : Nat) : Prop :=
  text ≠ [] ∧ text.all isDigit ∧ decimal text = number

/-- A host, a colon and a port, with no colon after that one. -/
def IsHostPort (text host : List Byte) (port : BitVec 16) : Prop :=
  ∃ portText, text = host ++ colon :: portText ∧ host ≠ [] ∧ colon ∉ portText ∧ IsDecimal portText port.toNat

/-- A numeral and the double it denotes. -/
def IsNumeral (text : List Byte) (number : Binary64) : Prop :=
  ∃ numeral : Numeral, numeral.WellFormed ∧ text = numeral.text ∧ numeral.InRange ∧ number = numeral.toDouble

/-- The name of a command on the command line. -/
def CommandKind.argument : CommandKind → List Byte
  | .status => bytesOf "status"
  | .enable => bytesOf "enable"
  | .disable => bytesOf "disable"
  | .home => bytesOf "home"
  | .moveJoint => bytesOf "move-joint"
  | .stop => bytesOf "stop"
  | .emergencyStop => bytesOf "estop"

/-- What a command name and its arguments are read as. -/
inductive ReadsCommand : List Byte → List (List Byte) → Except CliError Command → Prop where
  | unknownCommand {name args} (h : ∀ kind : CommandKind, name ≠ kind.argument) :
      ReadsCommand name args (.error .unknownCommand)
  | simple {kind : CommandKind} {args} (h : kind ≠ .moveJoint) : ReadsCommand kind.argument args (.ok { kind := kind })
  | missingArgument {args : List (List Byte)} (h : args.length < 2) :
      ReadsCommand CommandKind.moveJoint.argument args (.error .missingArgument)
  | invalidIndex {index degrees args} (h : ∀ jointIndex : BitVec 8, ¬IsDecimal index jointIndex.toNat) :
      ReadsCommand CommandKind.moveJoint.argument (index :: degrees :: args) (.error .invalidArgument)
  | invalidDegrees {index degrees args} {jointIndex : BitVec 8} (hindex : IsDecimal index jointIndex.toNat)
      (h : ∀ targetDegrees, ¬IsNumeral degrees targetDegrees) :
      ReadsCommand CommandKind.moveJoint.argument (index :: degrees :: args) (.error .invalidArgument)
  | moveJoint {index degrees args} {jointIndex : BitVec 8} {targetDegrees}
      (hindex : IsDecimal index jointIndex.toNat) (hdegrees : IsNumeral degrees targetDegrees) :
      ReadsCommand CommandKind.moveJoint.argument (index :: degrees :: args)
        (.ok ⟨.moveJoint, jointIndex, targetDegrees⟩)

/-- What the arguments of an invocation are read as. Without two of them nothing else is looked at. -/
inductive Reads : List (List Byte) → Except CliError ParsedInvocation → Prop where
  | noArgument : Reads [] (.error .invalidHostPort)
  | missingCommand {argument} : Reads [argument] (.error .missingCommand)
  | invalidHostPort {hostPort name args} (h : ∀ host port, ¬IsHostPort hostPort host port) :
      Reads (hostPort :: name :: args) (.error .invalidHostPort)
  | invalidCommand {hostPort name args host port error} (h : IsHostPort hostPort host port)
      (hcommand : ReadsCommand name args (.error error)) : Reads (hostPort :: name :: args) (.error error)
  | invocation {hostPort name args host port command} (h : IsHostPort hostPort host port)
      (hcommand : ReadsCommand name args (.ok command)) :
      Reads (hostPort :: name :: args) (.ok ⟨host, port, command⟩)

/-! ### The address -/

theorem rfind_eq_none_iff {c : Byte} {text : List Byte} : rfind c text = none ↔ c ∉ text := by
  induction text with
  | nil => simp [rfind]
  | cons d text ih =>
      rw [rfind, List.mem_cons, not_or, ← ih]
      cases hrest : rfind c text with
      | some index => simp
      | none =>
          by_cases hd : d = c
          · simp [hd]
          · simp [hd, Ne.symm hd]

theorem rfind_append {c : Byte} {front tail : List Byte} (h : c ∉ tail) :
    rfind c (front ++ c :: tail) = some front.length := by
  induction front with
  | nil =>
      rw [List.nil_append, rfind, rfind_eq_none_iff.2 h]
      exact if_pos rfl
  | cons d front ih => rw [List.cons_append, rfind, ih, List.length_cons]

theorem exists_of_rfind {c : Byte} {text : List Byte} {index : Nat} (h : rfind c text = some index) :
    ∃ front tail, text = front ++ c :: tail ∧ c ∉ tail ∧ index = front.length := by
  induction text generalizing index with
  | nil => cases h
  | cons d text ih =>
      rw [rfind] at h
      cases hrest : rfind c text with
      | some later =>
          rw [hrest] at h
          obtain ⟨front, tail, rfl, htail, rfl⟩ := ih hrest
          exact ⟨d :: front, tail, rfl, htail, (Option.some.inj h).symm⟩
      | none =>
          rw [hrest] at h
          dsimp only at h
          split_ifs at h with hd
          exact ⟨[], text, by rw [hd]; rfl, rfind_eq_none_iff.1 hrest, (Option.some.inj h).symm⟩

/-- A parse whose result says no error and whose end is the end of the text. -/
theorem complete_iff {α : Type} {result : Result α} {value : α} :
    (¬(result.ec ≠ .ok ∨ result.rest ≠ []) ∧ result.value = value) ↔ result = ⟨.ok, [], value⟩ := by
  obtain ⟨ec, rest, value'⟩ := result
  simp only [ne_eq, not_or, not_not, Result.mk.injEq, and_assoc]

theorem splitHostPort_append {host portText : List Byte} (hcolon : colon ∉ portText) :
    splitHostPort (host ++ colon :: portText) =
      if host = [] ∨ portText = [] then .error .invalidHostPort
      else if (unsigned portText (0 : BitVec 16)).ec ≠ .ok ∨ (unsigned portText (0 : BitVec 16)).rest ≠ [] then
        .error .invalidHostPort
      else .ok (host, (unsigned portText (0 : BitVec 16)).value) := by
  have hends : (host.length = 0 ∨ host.length = (host ++ colon :: portText).length - 1) ↔
      (host = [] ∨ portText = []) := by
    rw [List.length_append, List.length_cons, ← List.length_eq_zero_iff, ← List.length_eq_zero_iff]
    omega
  have hdrop : (host ++ colon :: portText).drop (host.length + 1) = portText := by
    rw [List.drop_append, List.drop_eq_nil_of_le (by omega), Nat.add_sub_cancel_left]
    rfl
  rw [splitHostPort, rfind_append hcolon]
  dsimp only
  rw [if_congr hends rfl rfl, hdrop, List.take_left]

theorem splitHostPort_ok_iff {text host : List Byte} {port : BitVec 16} :
    splitHostPort text = .ok (host, port) ↔ IsHostPort text host port := by
  constructor
  · intro h
    cases hrfind : rfind colon text with
    | none =>
        rw [splitHostPort, hrfind] at h
        cases h
    | some index =>
        obtain ⟨front, portText, rfl, hcolon, -⟩ := exists_of_rfind hrfind
        rw [splitHostPort_append hcolon] at h
        split_ifs at h with hends hresult
        obtain ⟨rfl, hport⟩ := Prod.mk.inj (Except.ok.inj h)
        exact ⟨portText, rfl, (not_or.1 hends).1, hcolon, unsigned_ok_iff.1 (complete_iff.1 ⟨hresult, hport⟩)⟩
  · rintro ⟨portText, rfl, hhost, hcolon, hdecimal⟩
    rw [splitHostPort_append hcolon, if_neg (not_or.2 ⟨hhost, hdecimal.1⟩), unsigned_ok_iff.2 hdecimal]
    rfl

theorem splitHostPort_error {text : List Byte} {error : CliError} (h : splitHostPort text = .error error) :
    error = .invalidHostPort := by
  rw [splitHostPort] at h
  cases hrfind : rfind colon text with
  | none =>
      rw [hrfind] at h
      exact (Except.error.inj h).symm
  | some index =>
      rw [hrfind] at h
      dsimp only at h
      split_ifs at h <;> exact (Except.error.inj h).symm

/-! ### The arguments of a command -/

theorem parseJointIndex_ok_iff {text : List Byte} {jointIndex : BitVec 8} :
    parseJointIndex text = .ok jointIndex ↔ IsDecimal text jointIndex.toNat := by
  rw [parseJointIndex]
  constructor
  · intro h
    split_ifs at h with hresult
    rw [← or_assoc, not_or] at hresult
    have hunsigned := unsigned_ok_iff.1 (complete_iff.1 ⟨hresult.1, rfl⟩)
    have hle : (unsigned text (0 : BitVec 32)).value.toNat ≤ 255 := BitVec.not_lt.1 hresult.2
    rw [← Except.ok.inj h, BitVec.toNat_setWidth, Nat.mod_eq_of_lt (by omega)]
    exact hunsigned
  · intro h
    have hlt := jointIndex.isLt
    have hunsigned : unsigned text (0 : BitVec 32) = ⟨.ok, [], jointIndex.setWidth 32⟩ := by
      refine unsigned_ok_iff.2 ⟨h.1, h.2.1, ?_⟩
      rw [h.2.2, BitVec.toNat_setWidth, Nat.mod_eq_of_lt (by omega)]
    have hle : ¬jointIndex.setWidth 32 > 255 := by
      rw [gt_iff_lt, BitVec.not_lt, BitVec.le_def, BitVec.toNat_setWidth, Nat.mod_eq_of_lt (by omega)]
      exact Nat.le_of_lt_succ hlt
    rw [hunsigned, if_neg (by simpa using hle), BitVec.setWidth_setWidth_of_le _ (by omega), BitVec.setWidth_eq]

theorem parseJointIndex_error {text : List Byte} {error : CliError} (h : parseJointIndex text = .error error) :
    error = .invalidArgument := by
  rw [parseJointIndex] at h
  split_ifs at h
  exact (Except.error.inj h).symm

theorem parseDouble_ok_iff {text : List Byte} (hspecial : ¬IsSpecial text) {targetDegrees : Binary64} :
    parseDouble text = .ok targetDegrees ↔ IsNumeral text targetDegrees := by
  rw [IsNumeral, ← @double_ok_iff text hspecial (Arith.ofInt 0), ← complete_iff, parseDouble]
  split_ifs with hresult
  · simp [hresult]
  · simp [hresult]

theorem parseDouble_error {text : List Byte} {error : CliError} (h : parseDouble text = .error error) :
    error = .invalidArgument := by
  rw [parseDouble] at h
  split_ifs at h
  exact (Except.error.inj h).symm

theorem parseCommand_moveJoint (args : List (List Byte)) :
    parseCommand CommandKind.moveJoint.argument args = parseMoveJoint args := by
  rw [parseCommand, if_neg (by decide), if_neg (by decide), if_neg (by decide), if_neg (by decide),
    if_neg (by decide), if_neg (by decide)]
  exact if_pos rfl

theorem parseCommand_simple {kind : CommandKind} (h : kind ≠ .moveJoint) (args : List (List Byte)) :
    parseCommand kind.argument args = .ok { kind := kind } := by
  cases kind with
  | moveJoint => exact absurd rfl h
  | status | enable | disable | home | stop | emergencyStop =>
      rw [parseCommand]
      rfl

theorem parseCommand_unknown {name : List Byte} (h : ∀ kind : CommandKind, name ≠ kind.argument)
    (args : List (List Byte)) : parseCommand name args = .error .unknownCommand := by
  rw [parseCommand, if_neg (show name ≠ bytesOf "status" from h .status),
    if_neg (show name ≠ bytesOf "enable" from h .enable),
    if_neg (show name ≠ bytesOf "disable" from h .disable), if_neg (show name ≠ bytesOf "home" from h .home),
    if_neg (show name ≠ bytesOf "stop" from h .stop), if_neg (show name ≠ bytesOf "estop" from h .emergencyStop)]
  exact if_neg (h .moveJoint)

/-- A `move-joint` with an index, whose angle is a spelling of infinity or of what is not a number. -/
def SpecialAngle (name : List Byte) (args : List (List Byte)) : Prop :=
  name = CommandKind.moveJoint.argument ∧ ∃ (index degrees : List Byte) (rest : List (List Byte))
    (jointIndex : BitVec 8), args = index :: degrees :: rest ∧ IsDecimal index jointIndex.toNat ∧ IsSpecial degrees

theorem parseMoveJoint_reads {args : List (List Byte)}
    (hspecial : ¬SpecialAngle CommandKind.moveJoint.argument args) :
    ReadsCommand CommandKind.moveJoint.argument args (parseMoveJoint args) := by
  rcases args with - | ⟨index, - | ⟨degrees, rest⟩⟩
  · exact .missingArgument (by decide)
  · exact .missingArgument (Nat.one_lt_two)
  · rw [parseMoveJoint]
    cases hindex : parseJointIndex index with
    | error error =>
        rw [parseJointIndex_error hindex]
        apply ReadsCommand.invalidIndex
        intro jointIndex h
        rw [parseJointIndex_ok_iff.2 h] at hindex
        cases hindex
    | ok jointIndex =>
        have hdecimal := parseJointIndex_ok_iff.1 hindex
        have hdegrees : ¬IsSpecial degrees :=
          fun h => hspecial ⟨rfl, index, degrees, rest, jointIndex, rfl, hdecimal, h⟩
        cases hdouble : parseDouble degrees with
        | error error =>
            rw [parseDouble_error hdouble]
            apply ReadsCommand.invalidDegrees hdecimal
            intro targetDegrees h
            rw [(parseDouble_ok_iff hdegrees).2 h] at hdouble
            cases hdouble
        | ok targetDegrees => exact .moveJoint hdecimal ((parseDouble_ok_iff hdegrees).1 hdouble)

theorem parseCommand_reads {name : List Byte} {args : List (List Byte)} (hspecial : ¬SpecialAngle name args) :
    ReadsCommand name args (parseCommand name args) := by
  by_cases hname : ∃ kind : CommandKind, name = kind.argument
  · obtain ⟨kind, rfl⟩ := hname
    by_cases hmove : kind = .moveJoint
    · subst hmove
      rw [parseCommand_moveJoint]
      exact parseMoveJoint_reads hspecial
    · rw [parseCommand_simple hmove]
      exact .simple hmove
  · have hunknown := not_exists.1 hname
    rw [parseCommand_unknown hunknown]
    exact .unknownCommand hunknown

theorem parseMoveJoint_of_invalidIndex {index degrees : List Byte} (rest : List (List Byte))
    (h : ∀ jointIndex : BitVec 8, ¬IsDecimal index jointIndex.toNat) :
    parseMoveJoint (index :: degrees :: rest) = .error .invalidArgument := by
  rw [parseMoveJoint]
  cases hindex : parseJointIndex index with
  | ok jointIndex => exact absurd (parseJointIndex_ok_iff.1 hindex) (h jointIndex)
  | error error =>
      rw [parseJointIndex_error hindex]
      rfl

theorem parseMoveJoint_of_index {index degrees : List Byte} (rest : List (List Byte)) {jointIndex : BitVec 8}
    (hindex : IsDecimal index jointIndex.toNat) : parseMoveJoint (index :: degrees :: rest) =
      (parseDouble degrees).map fun targetDegrees => ⟨.moveJoint, jointIndex, targetDegrees⟩ := by
  rw [parseMoveJoint, parseJointIndex_ok_iff.2 hindex]
  cases parseDouble degrees <;> rfl

theorem parseCommand_of_index {index degrees : List Byte} (rest : List (List Byte)) {jointIndex : BitVec 8}
    (hindex : IsDecimal index jointIndex.toNat) :
    parseCommand (bytesOf "move-joint") (index :: degrees :: rest) =
      (parseDouble degrees).map fun targetDegrees => ⟨.moveJoint, jointIndex, targetDegrees⟩ :=
  (parseCommand_moveJoint _).trans (parseMoveJoint_of_index rest hindex)

theorem parseCommand_of_reads {name : List Byte} {args : List (List Byte)} (hspecial : ¬SpecialAngle name args)
    {result : Except CliError Command} (h : ReadsCommand name args result) : parseCommand name args = result := by
  cases h with
  | unknownCommand h => exact parseCommand_unknown h args
  | simple h => exact parseCommand_simple h args
  | missingArgument h =>
      rw [parseCommand_moveJoint]
      rcases args with - | ⟨index, - | ⟨degrees, rest⟩⟩
      · rfl
      · rfl
      · simp at h
  | invalidIndex h => rw [parseCommand_moveJoint, parseMoveJoint_of_invalidIndex _ h]
  | invalidDegrees hindex h =>
      rw [parseCommand_moveJoint, parseMoveJoint_of_index _ hindex]
      rename_i index degrees rest jointIndex
      have hdegrees : ¬IsSpecial degrees := fun h => hspecial ⟨rfl, index, degrees, rest, jointIndex, rfl, hindex, h⟩
      cases hdouble : parseDouble degrees with
      | ok targetDegrees => exact absurd ((parseDouble_ok_iff hdegrees).1 hdouble) (h targetDegrees)
      | error error =>
          rw [parseDouble_error hdouble]
          rfl
  | moveJoint hindex h =>
      rw [parseCommand_moveJoint, parseMoveJoint_of_index _ hindex]
      rename_i index degrees rest jointIndex targetDegrees
      have hdegrees : ¬IsSpecial degrees := fun h => hspecial ⟨rfl, index, degrees, rest, jointIndex, rfl, hindex, h⟩
      rw [(parseDouble_ok_iff hdegrees).2 h]
      rfl

/-! ### The whole invocation -/

/-- No invocation with an address is for a move to infinity or to what is not a number. -/
def PlainAngle (args : List (List Byte)) : Prop :=
  ∀ hostPort name rest host port, args = hostPort :: name :: rest → IsHostPort hostPort host port →
    ¬SpecialAngle name rest

/-- Without the first letters of the spellings there is none of them. -/
theorem plainAngle_of_letters {args : List (List Byte)}
    (h : ∀ degrees ∈ args[3]?, ∀ c ∈ degrees, toLower c ≠ 0x69 ∧ toLower c ≠ 0x6E) : PlainAngle args := by
  rintro hostPort name rest host port rfl - ⟨-, index, degrees, more, jointIndex, rfl, -, hspecial⟩
  obtain ⟨c, hc, hletter⟩ := hspecial.exists_letter
  obtain ⟨hi, hn⟩ := h degrees rfl c hc
  rcases hletter with hletter | hletter
  · exact hi hletter
  · exact hn hletter

theorem parseArgs_reads {args : List (List Byte)} (hplain : PlainAngle args) : Reads args (parseArgs args) := by
  rcases args with - | ⟨hostPort, - | ⟨name, rest⟩⟩
  · exact .noArgument
  · exact .missingCommand
  · rw [parseArgs]
    cases haddress : splitHostPort hostPort with
    | error error =>
        rw [splitHostPort_error haddress]
        apply Reads.invalidHostPort
        intro host port h
        rw [splitHostPort_ok_iff.2 h] at haddress
        cases haddress
    | ok address =>
        obtain ⟨host, port⟩ := address
        have hhost := splitHostPort_ok_iff.1 haddress
        have hreads := parseCommand_reads (hplain hostPort name rest host port rfl hhost)
        cases hcommand : parseCommand name rest with
        | error error =>
            rw [hcommand] at hreads
            exact .invalidCommand hhost hreads
        | ok command =>
            rw [hcommand] at hreads
            exact .invocation hhost hreads

theorem parseArgs_of_reads {args : List (List Byte)} (hplain : PlainAngle args)
    {result : Except CliError ParsedInvocation} (h : Reads args result) : parseArgs args = result := by
  cases h with
  | noArgument => rfl
  | missingCommand => rfl
  | invalidHostPort h =>
      rename_i hostPort name rest
      rw [parseArgs]
      cases haddress : splitHostPort hostPort with
      | ok address => exact absurd (splitHostPort_ok_iff.1 haddress) (h address.1 address.2)
      | error error =>
          rw [splitHostPort_error haddress]
          rfl
  | invalidCommand h hcommand =>
      rw [parseArgs, splitHostPort_ok_iff.2 h]
      have hparse := parseCommand_of_reads (hplain _ _ _ _ _ rfl h) hcommand
      simp [hparse, bind, Except.bind]
  | invocation h hcommand =>
      rw [parseArgs, splitHostPort_ok_iff.2 h]
      have hparse := parseCommand_of_reads (hplain _ _ _ _ _ rfl h) hcommand
      simp [hparse, bind, Except.bind, pure, Except.pure]

/-- An invocation is parsed as the grammar reads it: it succeeds with exactly what the arguments spell, or
fails with the error of the first rule that is broken. -/
theorem parseArgs_iff {args : List (List Byte)} (hplain : PlainAngle args)
    (result : Except CliError ParsedInvocation) : parseArgs args = result ↔ Reads args result := by
  constructor
  · rintro rfl
    exact parseArgs_reads hplain
  · exact parseArgs_of_reads hplain

/-- A negative angle with a fraction, for the joint of index 3. -/
theorem parseArgs_iff_moveJoint :
    parseArgs [bytesOf "127.0.0.1:9000", bytesOf "move-joint", bytesOf "3", bytesOf "-45.5"] =
      .ok ⟨bytesOf "127.0.0.1", 9000, ⟨.moveJoint, 3, -(Binary64.ofInt 91 / Binary64.ofInt 2)⟩⟩ := by
  refine (parseArgs_iff (plainAngle_of_letters ?_) _).2 (.invocation ?_ (.moveJoint ?_ ?_))
  · decide
  · exact ⟨bytesOf "9000", by decide, by decide, by decide, by decide, by decide, by decide⟩
  · exact ⟨by decide, by decide, by decide⟩
  · refine ⟨⟨[0x2D], bytesOf "45", some (bytesOf "5"), none⟩, ?_, by decide, by decide +kernel, by decide +kernel⟩
    exact ⟨.inr rfl, by decide, by decide, .inl (by decide), fun exponent h => by cases h⟩

/-- A single argument is a missing command, also where it is no address. -/
theorem missingCommand_before_address : parseArgs [bytesOf "bad"] = .error .missingCommand ∧
    ¬∃ host port, IsHostPort (bytesOf "bad") host port := by
  refine ⟨rfl, ?_⟩
  rintro ⟨host, port, portText, htext, -⟩
  have hmem : colon ∈ bytesOf "bad" := by
    rw [htext]
    exact List.mem_append_right _ List.mem_cons_self
  exact absurd hmem (by decide)

end RobotEmu
