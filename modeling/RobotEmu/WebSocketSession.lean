import RobotEmu.WebSocketSegmentation
import RobotEmu.WebSocketText

/-! A session with a client that asks for its upgrade in a header line of its own, as browsers do: the line is found and
answered, what the client sends after it is read frame by frame, and the client reads the texts that are sent. -/

namespace RobotEmu

open Search

namespace Upgrade

open WebSocketConnection WebSocketFrame

/-- A request with a header line of the name and a value that is not blank. The name is nowhere before that line. -/
structure Plain (upgrade : Upgrade) where
  before : List Byte
  name : List Byte
  value : List Byte
  after : List Byte
  request : upgrade.head ++ headerTerminator =
    before ++ (crlf ++ ((name ++ 0x3A :: value) ++ (crlf ++ after)))
  named : name.map toLower = secWebSocketKey.map toLower
  lineEnd : FirstAt crlf ((name ++ 0x3A :: value) ++ crlf) (name ++ 0x3A :: value).length
  nonblank : trim value ≠ []
  first : FirstAt (secWebSocketKey.map toLower) ((upgrade.head ++ headerTerminator).map toLower)
    (before.length + crlf.length)

namespace Plain

variable {upgrade : Upgrade}

theorem colon_not_mem (plain : upgrade.Plain) : 0x3A ∉ plain.name := by
  intro hmem
  have hlower := List.mem_map_of_mem (f := toLower) hmem
  rw [plain.named] at hlower
  revert hlower
  decide

theorem received_eq (plain : upgrade.Plain) : ∃ more, upgrade.received =
    plain.before ++ (crlf ++ (plain.name ++ 0x3A :: (plain.value ++ (crlf ++ more)))) := by
  obtain ⟨more, hmore⟩ := upgrade.received_starts
  refine ⟨plain.after ++ more, ?_⟩
  rw [← hmore, plain.request]
  simp only [List.append_assoc, List.cons_append]

theorem lines_line (plain : upgrade.Plain) :
    lines (plain.name ++ 0x3A :: plain.value) = [plain.name ++ 0x3A :: plain.value] := by
  apply lines_of_not_crlf
  intro i hoccurs
  have hlength := hoccurs.length_le
  have htwo : crlf.length = 2 := rfl
  rw [List.length_drop] at hlength
  apply plain.lineEnd.first i (by omega)
  exact (prefix_drop_append_iff (by omega)).2 hoccurs

/-- The bytes received with the end of the request do not come before the name. -/
theorem first_received (plain : upgrade.Plain) : FirstAt (secWebSocketKey.map toLower) (upgrade.received.map toLower)
    (plain.before.length + crlf.length) := by
  obtain ⟨more, hmore⟩ := upgrade.received_starts
  rw [← hmore, List.map_append, firstAt_append_iff plain.first.length_le]
  exact plain.first

/-- No line before the line has the name. -/
theorem headerValue_before (plain : upgrade.Plain) {line : List Byte} (h : line <:+: plain.before) :
    headerValue secWebSocketKey line = none := by
  rw [Option.eq_none_iff_forall_ne_some]
  intro value hvalue
  obtain ⟨i, hlength, hoccurs⟩ := exists_occurs_of_infix ((infix_of_headerValue hvalue).trans (h.map toLower))
  rw [List.length_map, List.length_map] at hlength
  refine plain.first.first i ?_ ?_
  · have hname : secWebSocketKey.length = 17 := rfl
    omega
  · rw [plain.request, List.map_append, prefix_drop_append_iff (by rwa [List.length_map, List.length_map])]
    exact hoccurs

theorem key_eq (plain : upgrade.Plain) : upgrade.key = some (trim plain.value) := by
  have hlines := congrArg lines plain.request
  have hterminator : lines (upgrade.head ++ headerTerminator) = lines upgrade.head ++ [[], []] :=
    lines_append_crlf upgrade.head crlf
  obtain ⟨first, others, hhead, -⟩ := exists_lines upgrade.head
  obtain ⟨first', others', hbefore, -, hothers⟩ := exists_lines plain.before
  rw [lines_append_crlf, lines_append_crlf, plain.lines_line, hterminator, hhead, hbefore] at hlines
  have htail : others ++ [[], []] = others' ++ ([plain.name ++ 0x3A :: plain.value] ++ lines plain.after) :=
    (List.cons.inj hlines).2
  have hvalue := headerValue_line plain.named plain.colon_not_mem plain.nonblank
  have hearlier : others'.findSome? (headerValue secWebSocketKey) = none :=
    List.findSome?_eq_none_iff.2 fun line hmem => plain.headerValue_before (hothers line hmem)
  have hblank : [[], []].findSome? (headerValue secWebSocketKey) = none := rfl
  have hfound := congrArg (List.findSome? (headerValue secWebSocketKey)) htail
  rw [List.findSome?_append, List.findSome?_append, hearlier, hblank, Option.or_none, Option.none_or,
    List.singleton_append, List.findSome?_cons, hvalue] at hfound
  rw [key, hhead, List.tail_cons]
  exact hfound

theorem leadsTo (plain : upgrade.Plain) : LeadsTo secWebSocketKey upgrade.received (trim plain.value) := by
  obtain ⟨more, hreceived⟩ := plain.received_eq
  have hname : upgrade.received.drop (plain.before.length + crlf.length)
      = plain.name ++ 0x3A :: (plain.value ++ (crlf ++ more)) := by
    rw [hreceived, ← List.append_assoc]
    exact List.drop_left' List.length_append
  have hcolon : upgrade.received.drop (plain.name.length + (plain.before.length + crlf.length))
      = 0x3A :: (plain.value ++ (crlf ++ more)) := by
    rw [Nat.add_comm, ← List.drop_drop, hname, List.drop_left]
  refine ⟨_, plain.name.length, plain.value.length + 1, plain.first_received, ?_, ?_, ?_, plain.nonblank⟩
  · rw [hname]
    exact firstAt_singleton plain.colon_not_mem _
  · have hend := plain.lineEnd.drop (show plain.name.length ≤ _ by rw [List.length_append]; omega)
    rw [List.append_assoc, List.drop_left, List.length_append, Nat.add_sub_cancel_left] at hend
    rw [hcolon, ← List.append_assoc, ← List.cons_append,
      firstAt_append_iff (by simp only [List.length_append, List.length_cons]; omega)]
    exact hend
  · rw [← List.drop_drop, hcolon, List.drop_one, List.tail_cons, Nat.add_sub_cancel, List.take_left]

end Plain

/-- Texts that are sent one after the other are read one by one. -/
theorem exists_frames_sendText {texts : List (List Byte)} (h : ∀ text ∈ texts, text.length < 2 ^ 63) :
    ∃ frames, decoder.frames (texts.flatMap fun text => (sendText text true).2) = (frames, []) ∧
      List.Forall₂ CarriesText frames texts := by
  have hall : ∃ frames, texts.flatMap (fun text => (sendText text true).2) = frames.flatMap wire ∧
      List.Forall₂ CarriesText frames texts := by
    induction texts with
    | nil => exact ⟨[], rfl, .nil⟩
    | cons text texts ih =>
        obtain ⟨frame, hcarries, hbytes⟩ := exists_carriesText (h text List.mem_cons_self)
        obtain ⟨frames, hrest, hall⟩ := ih fun later hmem => h later (List.mem_cons_of_mem _ hmem)
        refine ⟨frame :: frames, ?_, .cons hcarries hall⟩
        rw [List.flatMap_cons, List.flatMap_cons, hrest]
        exact congrArg (· ++ _) hbytes
  obtain ⟨frames, hbytes, hall⟩ := hall
  exact ⟨frames, by rw [hbytes, frames_flatMap_wire], hall⟩

/-- **A session.** However the socket cuts what the client sends, the value of its header line is answered, the calls
that follow read the frames behind the request, and the texts that are sent are read by the client in their order. -/
theorem session_of_plain (upgrade : Upgrade) (plain : upgrade.Plain)
    (hsize : upgrade.head.length + headerTerminator.length + 511 ≤ 16384) (texts : List (List Byte))
    (htexts : ∀ text ∈ texts, text.length < 2 ^ 63) :
    upgrade.key = some (trim plain.value) ∧
      (∃ connection, accept upgrade.inbound true =
          (.ok connection, switchingProtocols (acceptValue (trim plain.value))) ∧
        connection.FollowsFrames upgrade.stream) ∧
      ∃ frames, decoder.frames (texts.flatMap fun text => (sendText text true).2) = (frames, []) ∧
        List.Forall₂ CarriesText frames texts := by
  refine ⟨plain.key_eq, ?_, exists_frames_sendText htexts⟩
  have hreceived : upgrade.received.length ≤ 16384 := by
    have hlt := length_receivedFor_lt (show 0 < upgrade.head.length + headerTerminator.length from
      Nat.lt_of_lt_of_le (by decide) (Nat.le_add_left _ _)) upgrade.inbound
    rw [received]
    omega
  obtain ⟨connection, hunconsumed, haccept⟩ := upgrade.accept_of_size_le hreceived true
  rw [findHeaderValue_eq_ok_iff.2 plain.leadsTo] at haccept
  refine ⟨connection, haccept, ?_⟩
  rw [← hunconsumed]
  exact ⟨fun calls hcalls => (connection.frames_polls calls hcalls).2, connection.polls_last, connection.polls_suffix⟩

def browserHead : List Byte :=
  bytesOf "GET /chat HTTP/1.1\r\nHost: robot\r\nsec-websocket-key:  dGhlIHNhbXBsZSBub25jZQ== \r\nUpgrade: websocket"

/-- A request cut within the value of its header line, and behind it a close frame that is cut behind its mask. -/
def browser : Upgrade where
  head := browserHead
  stream := [0x88, 0x82, 0x01, 0x02, 0x03, 0x04, 0x02, 0xEA]
  inbound := [⟨browserHead.take 60, by decide, by decide⟩,
    ⟨browserHead.drop 60 ++ [0x0D, 0x0A, 0x0D, 0x0A, 0x88, 0x82, 0x01, 0x02, 0x03, 0x04], by decide, by decide⟩,
    ⟨[0x02, 0xEA], by decide, by decide⟩]
  arrives := by decide +kernel
  terminated := find_eq_some_iff.1 (by decide +kernel)

def plainBrowser : browser.Plain where
  before := bytesOf "GET /chat HTTP/1.1\r\nHost: robot"
  name := bytesOf "sec-websocket-key"
  value := bytesOf "  dGhlIHNhbXBsZSBub25jZQ== "
  after := bytesOf "Upgrade: websocket\r\n\r\n"
  request := by decide +kernel
  named := by decide
  lineEnd := find_eq_some_iff.1 (by decide +kernel)
  nonblank := by decide
  first := find_eq_some_iff.1 (by decide +kernel)

/-- Two texts, the second of which takes the longer form of a length. -/
theorem session_of_plain_browser :
    browser.key = some (bytesOf "dGhlIHNhbXBsZSBub25jZQ==") ∧
      (∃ connection, accept browser.inbound true =
          (.ok connection, switchingProtocols (acceptValue (bytesOf "dGhlIHNhbXBsZSBub25jZQ=="))) ∧
        connection.FollowsFrames browser.stream) ∧
      ∃ frames, decoder.frames ([bytesOf "hello", List.replicate 126 0x61].flatMap fun text =>
          (sendText text true).2) = (frames, []) ∧
        List.Forall₂ CarriesText frames [bytesOf "hello", List.replicate 126 0x61] := by
  have hkey : trim plainBrowser.value = bytesOf "dGhlIHNhbXBsZSBub25jZQ==" := by decide
  have hsession := session_of_plain browser plainBrowser (by decide) [bytesOf "hello", List.replicate 126 0x61]
    (by simp [bytesOf])
  rwa [hkey] at hsession

end Upgrade
end RobotEmu
