import RobotEmu.WebSocketConnection

/-! Which key the handshake answers. The request has header lines, and the key is the value of one of
them; the search looks for the name of the header anywhere in what has been received, and takes what
stands behind the next colon up to the next line end, wherever these are. -/

namespace RobotEmu

open Search

/-- The parts of a text between its line ends. -/
def lines : List Byte → List (List Byte)
  | [] => [[]]
  | [b] => [[b]]
  | b :: c :: rest =>
      if [b, c] = crlf then [] :: lines rest else (lines (c :: rest)).modifyHead (b :: ·)

theorem lines_crlf_append (text : List Byte) : lines (crlf ++ text) = [] :: lines text := if_pos rfl

theorem lines_cons {b : Byte} {text : List Byte} (h : ¬ crlf <+: b :: text) :
    lines (b :: text) = (lines text).modifyHead (b :: ·) := by
  cases text with
  | nil => rfl
  | cons c rest =>
      rw [lines, if_neg]
      rintro hcrlf
      exact h ⟨rest, by rw [← hcrlf]; rfl⟩

/-- The first line is what the text starts with, and the others are parts of it. -/
theorem exists_lines (text : List Byte) :
    ∃ first others, lines text = first :: others ∧ first <+: text ∧ ∀ line ∈ others, line <:+: text := by
  induction text using lines.induct with
  | case1 => exact ⟨[], [], rfl, List.nil_prefix, fun _ h => absurd h List.not_mem_nil⟩
  | case2 b => exact ⟨[b], [], rfl, List.prefix_refl _, fun _ h => absurd h List.not_mem_nil⟩
  | case3 b c rest hcrlf ih =>
      obtain ⟨first, others, hlines, hfirst, hothers⟩ := ih
      have hrest : rest <:+: b :: c :: rest := (List.suffix_append [b, c] rest).isInfix
      refine ⟨[], first :: others, ?_, List.nil_prefix, ?_⟩
      · rw [lines, if_pos hcrlf, hlines]
      · rw [List.forall_mem_cons]
        exact ⟨hfirst.isInfix.trans hrest, fun line hmem => (hothers line hmem).trans hrest⟩
  | case4 b c rest hcrlf ih =>
      obtain ⟨first, others, hlines, hfirst, hothers⟩ := ih
      refine ⟨b :: first, others, ?_, (List.prefix_cons_inj b).2 hfirst, ?_⟩
      · rw [lines, if_neg hcrlf, hlines, List.modifyHead_cons]
      · exact fun line hmem => (hothers line hmem).trans (List.suffix_cons b (c :: rest)).isInfix

theorem lines_append_crlf (text more : List Byte) :
    lines (text ++ (crlf ++ more)) = lines text ++ lines more := by
  induction text using lines.induct with
  | case1 => exact lines_crlf_append more
  | case2 b =>
      have hnot : ¬crlf <+: b :: (crlf ++ more) := by
        rintro ⟨rest, hrest⟩
        exact absurd (List.cons.inj (List.cons.inj hrest).2).1 (by decide)
      rw [List.singleton_append, lines_cons hnot, lines_crlf_append]
      rfl
  | case3 b c rest hcut ih =>
      rw [lines.eq_3 b c rest, if_pos hcut, List.cons_append, List.cons_append, lines.eq_3, if_pos hcut, ih]
      rfl
  | case4 b c rest hcut ih =>
      obtain ⟨first, others, hlines, -⟩ := exists_lines (c :: rest)
      rw [List.cons_append, List.cons_append, lines.eq_3, if_neg hcut, ← List.cons_append, ih, lines.eq_3,
        if_neg hcut, hlines]
      rfl

/-- A text in which no line ends is one line. -/
theorem lines_of_not_crlf {text : List Byte} (h : ∀ i, ¬crlf <+: text.drop i) : lines text = [text] := by
  induction text with
  | nil => rfl
  | cons b text ih =>
      rw [lines_cons (h 0), ih fun i => h (i + 1)]
      rfl

def isColon (b : Byte) : Bool := b = 0x3A

/-- The value of a header line of the name that is asked for, whatever the case of its letters. -/
def headerValue (headerName line : List Byte) : Option (List Byte) :=
  let value := trim ((line.dropWhile fun b => !isColon b).drop 1)
  if line.any isColon ∧ (line.takeWhile fun b => !isColon b).map toLower = headerName.map toLower ∧
      value ≠ [] then some value
  else none

theorem infix_of_headerValue {headerName line value : List Byte} (h : headerValue headerName line = some value) :
    headerName.map toLower <:+: line.map toLower := by
  rw [headerValue] at h
  split_ifs at h with hline
  rw [← hline.2.1]
  exact ((List.takeWhile_prefix _).map toLower).isInfix

theorem headerValue_line {headerName name value : List Byte} (hname : name.map toLower = headerName.map toLower)
    (hcolon : 0x3A ∉ name) (hvalue : trim value ≠ []) :
    headerValue headerName (name ++ 0x3A :: value) = some (trim value) := by
  have hnot : ∀ b ∈ name, !isColon b := by
    intro b hmem
    rw [Bool.not_eq_true', isColon, decide_eq_false_iff_not]
    rintro rfl
    exact hcolon hmem
  have htake : (name ++ 0x3A :: value).takeWhile (fun b => !isColon b) = name := by
    rw [List.takeWhile_append_of_pos hnot, List.takeWhile_cons_of_neg (by decide), List.append_nil]
  have hdrop : (name ++ 0x3A :: value).dropWhile (fun b => !isColon b) = 0x3A :: value := by
    rw [List.dropWhile_append_of_pos hnot, List.dropWhile_cons_of_neg (by decide)]
  have hany : (name ++ 0x3A :: value).any isColon := by
    rw [List.any_append, List.any_cons]
    exact Bool.or_true _
  rw [headerValue, htake, hdrop]
  exact if_pos ⟨hany, hname, hvalue⟩

/-- What the first occurrence of the name leads to: the text behind the next colon up to the next line
end, without the blanks around it, if anything is left. -/
def LeadsTo (headerName text value : List Byte) : Prop :=
  ∃ name colon lineEnd, FirstAt (headerName.map toLower) (text.map toLower) name ∧
    FirstAt (bytesOf ":") (text.drop name) colon ∧ FirstAt crlf (text.drop (colon + name)) lineEnd ∧
    trim ((text.drop (colon + name + 1)).take (lineEnd - 1)) = value ∧ value ≠ []

theorem findHeaderValue_eq_ok_iff {headerName text value : List Byte} :
    findHeaderValue text headerName = .ok value ↔ LeadsTo headerName text value := by
  constructor
  · intro h
    rw [findHeaderValue] at h
    split at h
    · exact nomatch h
    next name hname =>
      split at h
      · exact nomatch h
      next colonAt hcolon =>
        split at h
        · exact nomatch h
        next lineEndAt hlineEnd =>
          dsimp only at h
          split_ifs at h with hblank
          obtain ⟨colon, hfirstColon, rfl⟩ := findFrom_eq_some_iff.1 hcolon
          obtain ⟨lineEnd, hfirstLineEnd, rfl⟩ := findFrom_eq_some_iff.1 hlineEnd
          rw [Nat.add_sub_cancel] at h hblank
          obtain rfl := Except.ok.inj h
          exact ⟨name, colon, lineEnd, find_eq_some_iff.1 hname, hfirstColon, hfirstLineEnd, rfl, hblank⟩
  · rintro ⟨name, colon, lineEnd, hname, hcolon, hlineEnd, hvalue, hblank⟩
    rw [findHeaderValue, find_eq_some_iff.2 hname]
    dsimp only
    rw [findFrom_eq_some_iff.2 ⟨colon, hcolon, rfl⟩]
    dsimp only
    rw [findFrom_eq_some_iff.2 ⟨lineEnd, hlineEnd, rfl⟩]
    dsimp only
    rw [Nat.add_sub_cancel, hvalue, if_neg hblank]

theorem findHeaderValue_of_not_leadsTo {headerName text : List Byte}
    (h : ∀ value, ¬ LeadsTo headerName text value) :
    findHeaderValue text headerName = .error .handshakeFailed := by
  cases hfind : findHeaderValue text headerName with
  | ok value => exact absurd (findHeaderValue_eq_ok_iff.1 hfind) (h value)
  | error error =>
      rw [findHeaderValue] at hfind
      split at hfind
      · exact hfind.symm
      split at hfind
      · exact hfind.symm
      split at hfind
      · exact hfind.symm
      dsimp only at hfind
      split_ifs at hfind
      exact hfind.symm

theorem switchingProtocols_inj {value value' : List Byte} :
    switchingProtocols value = switchingProtocols value' ↔ value = value' := by
  rw [switchingProtocols, switchingProtocols, List.append_cancel_right_eq, List.append_cancel_left_eq,
    List.append_cancel_right_eq, List.append_cancel_left_eq]

theorem switchingProtocols_ne_nil (value : List Byte) : switchingProtocols value ≠ [] := by
  simp [switchingProtocols, bytesOf]

namespace Upgrade

open WebSocketConnection

variable (upgrade : Upgrade)

/-- The value of the first header line that has the name and is not blank. The first of the lines is the
request line. -/
def key : Option (List Byte) := (lines upgrade.head).tail.findSome? (headerValue secWebSocketKey)

/-- The handshake answers the key of the request, and fails where it has none. -/
def AnswersKey : Prop :=
  ∀ sent, match upgrade.key with
    | some key => (accept upgrade.inbound sent).2 = switchingProtocols (acceptValue key) ∧
        (sent = true → ∃ connection, (accept upgrade.inbound sent).1 = .ok connection)
    | none => accept upgrade.inbound sent = (.error .handshakeFailed, [])

/-- The first occurrence of the name in all that was received leads to a text with the accept value of
the key, and nothing more than the size limit was received; without a key it leads nowhere. -/
def LedToKey : Prop :=
  match upgrade.key with
  | some key => upgrade.received.length ≤ 16384 ∧
      ∃ value, LeadsTo secWebSocketKey upgrade.received value ∧ acceptValue value = acceptValue key
  | none => upgrade.received.length ≤ 16384 → ∀ value, ¬ LeadsTo secWebSocketKey upgrade.received value

theorem accept_of_leadsTo {value : List Byte} (hsize : upgrade.received.length ≤ 16384)
    (h : LeadsTo secWebSocketKey upgrade.received value) (sent : Bool) :
    (accept upgrade.inbound sent).2 = switchingProtocols (acceptValue value) ∧
      (sent = true → ∃ connection, (accept upgrade.inbound sent).1 = .ok connection) := by
  obtain ⟨connection, -, haccept⟩ := upgrade.accept_of_size_le hsize sent
  rw [findHeaderValue_eq_ok_iff.2 h] at haccept
  rw [haccept]
  refine ⟨rfl, ?_⟩
  rintro rfl
  exact ⟨connection, rfl⟩

theorem accept_of_not_leadsTo (h : upgrade.received.length ≤ 16384 →
    ∀ value, ¬ LeadsTo secWebSocketKey upgrade.received value) (sent : Bool) :
    accept upgrade.inbound sent = (.error .handshakeFailed, []) := by
  by_cases hsize : upgrade.received.length ≤ 16384
  · obtain ⟨connection, -, haccept⟩ := upgrade.accept_of_size_le hsize sent
    rwa [findHeaderValue_of_not_leadsTo (h hsize)] at haccept
  · exact upgrade.accept_of_size_gt (by omega) sent

theorem answersKey_of_none (h : upgrade.key = none) :
    upgrade.AnswersKey ↔ ∀ sent, accept upgrade.inbound sent = (.error .handshakeFailed, []) := by
  rw [AnswersKey, h]

theorem answersKey_of_some {key : List Byte} (h : upgrade.key = some key) :
    upgrade.AnswersKey ↔ ∀ sent, (accept upgrade.inbound sent).2 = switchingProtocols (acceptValue key) ∧
      (sent = true → ∃ connection, (accept upgrade.inbound sent).1 = .ok connection) := by
  rw [AnswersKey, h]

/-- The handshake answers the key exactly where the first occurrence of the name leads to it. -/
theorem answersKey_iff : upgrade.AnswersKey ↔ upgrade.LedToKey := by
  rw [LedToKey]
  cases hkey : upgrade.key with
  | none =>
      rw [upgrade.answersKey_of_none hkey]
      constructor
      · intro hfails hsize value hleads
        obtain ⟨hresponse, -⟩ := upgrade.accept_of_leadsTo hsize hleads true
        rw [hfails true] at hresponse
        exact switchingProtocols_ne_nil _ hresponse.symm
      · exact upgrade.accept_of_not_leadsTo
  | some key =>
      rw [upgrade.answersKey_of_some hkey]
      constructor
      · intro hanswers
        have hresponse := (hanswers true).1
        by_cases hleads : upgrade.received.length ≤ 16384 ∧
            ∃ value, LeadsTo secWebSocketKey upgrade.received value
        · obtain ⟨hsize, value, hleads⟩ := hleads
          rw [(upgrade.accept_of_leadsTo hsize hleads true).1] at hresponse
          exact ⟨hsize, value, hleads, switchingProtocols_inj.1 hresponse⟩
        · rw [upgrade.accept_of_not_leadsTo fun hsize value hvalue =>
            hleads ⟨hsize, value, hvalue⟩] at hresponse
          exact absurd hresponse.symm (switchingProtocols_ne_nil _)
      · rintro ⟨hsize, value, hleads, hvalue⟩ sent
        rw [← hvalue]
        exact upgrade.accept_of_leadsTo hsize hleads sent

/-- A request without the header, whose target has the name in it. -/
def namedTarget : Upgrade :=
  whole (bytesOf "GET /sec-websocket-key HTTP/1.1\r\nHost: robot") [] (by decide) (by decide)

/-- The name in the target leads to the value of the next line, and that is answered. -/
theorem not_answersKey : ¬ ∀ upgrade : Upgrade,
    upgrade.head.length + headerTerminator.length ≤ 16384 → upgrade.AnswersKey := by
  intro hall
  have hkey : namedTarget.key = none := by decide
  have hanswers := hall namedTarget (by decide)
  rw [answersKey_of_none _ hkey] at hanswers
  have hresult : (accept namedTarget.inbound true).1 = .error .handshakeFailed :=
    congrArg Prod.fst (hanswers true)
  have haccepted : (accept namedTarget.inbound true).1 = .ok ⟨[], []⟩ := rfl
  rw [haccepted] at hresult
  exact nomatch hresult

end Upgrade
end RobotEmu
