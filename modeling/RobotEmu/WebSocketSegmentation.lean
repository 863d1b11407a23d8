import RobotEmu.WebSocketHandshake

/-! Whether the handshake sees how the socket cuts the bytes of the client. It does: what is received with
the end of the request is searched for the key and counted against the size limit, and how much that is
depends on the cut. -/

namespace RobotEmu

open Search WebSocketConnection

/-- Where the name leads is not changed by more bytes. -/
theorem LeadsTo.append {headerName text value : List Byte} (h : LeadsTo headerName text value)
    (more : List Byte) : LeadsTo headerName (text ++ more) value := by
  obtain ⟨name, colon, lineEnd, hname, hcolon, hlineEnd, hvalue, hblank⟩ := h
  have hnameLength := hname.length_le
  have hcolonLength := hcolon.length_le
  have hlineEndLength := hlineEnd.length_le
  have hone : (bytesOf ":").length = 1 := rfl
  have htwo : crlf.length = 2 := rfl
  rw [List.length_map, List.length_map] at hnameLength
  rw [List.length_drop, hone] at hcolonLength
  rw [List.length_drop, htwo] at hlineEndLength
  refine ⟨name, colon, lineEnd, ?_, ?_, ?_, ?_, hblank⟩
  · rw [List.map_append, firstAt_append_iff (by rw [List.length_map, List.length_map]; omega)]
    exact hname
  · rw [List.drop_append_of_le_length (by omega),
      firstAt_append_iff (by rw [List.length_drop, hone]; omega)]
    exact hcolon
  · rw [List.drop_append_of_le_length (by omega),
      firstAt_append_iff (by rw [List.length_drop, htwo]; omega)]
    exact hlineEnd
  · rw [List.drop_append_of_le_length (by omega),
      List.take_append_of_le_length (by rw [List.length_drop]; omega)]
    exact hvalue

theorem LeadsTo.take {headerName text value : List Byte} {n m : Nat}
    (h : LeadsTo headerName (text.take n) value) (hle : n ≤ m) :
    LeadsTo headerName (text.take m) value := by
  have hsplit : text.take m = text.take n ++ (text.take m).drop n := by
    have hfirst := List.take_append_drop n (text.take m)
    rw [List.take_take, Nat.min_eq_left hle] at hfirst
    exact hfirst.symm
  rw [hsplit]
  exact h.append _

/-! ### What a cut makes of the end of the request -/

theorem length_receivedFor_lt {count : Nat} (h : 0 < count) (inbound : List Chunk) :
    (receivedFor count inbound).length < count + 512 := by
  induction inbound generalizing count with
  | nil => exact Nat.lt_of_lt_of_le h (Nat.le_add_right _ _)
  | cons chunk later ih =>
      have hchunk := chunk.length_le
      rw [receivedFor_cons h, List.length_append]
      rcases Nat.eq_zero_or_pos (count - chunk.bytes.length) with hdone | hmore
      · rw [hdone, receivedFor_zero, List.length_nil]
        omega
      · have hlater := ih hmore
        omega

/-- Chunks that do not complete the bytes asked for are all received. -/
theorem receivedFor_append {count : Nat} (front : List Chunk) (later : List Chunk)
    (h : (front.flatMap Chunk.bytes).length < count) :
    receivedFor count (front ++ later) = front.flatMap Chunk.bytes
      ++ receivedFor (count - (front.flatMap Chunk.bytes).length) later := by
  induction front generalizing count with
  | nil => rfl
  | cons chunk front ih =>
      rw [List.flatMap_cons, List.length_append] at h
      rw [List.cons_append, receivedFor_cons (by omega), ih (by omega), List.flatMap_cons,
        List.length_append, List.append_assoc, Nat.sub_add_eq]

/-- Every byte in a receive of its own. -/
def bytewise (bytes : List Byte) : List Chunk :=
  bytes.map fun byte => ⟨[byte], List.cons_ne_nil _ _, by rw [List.length_singleton]; omega⟩

theorem flatMap_bytewise (bytes : List Byte) : (bytewise bytes).flatMap Chunk.bytes = bytes := by
  rw [bytewise, List.flatMap_map]
  exact List.flatMap_singleton' bytes

/-- Whatever comes with the last byte asked for, up to a whole receive, can come with it. -/
theorem exists_cut {text : List Byte} {count size : Nat} (hcount : 0 < count) (hle : count ≤ size)
    (hsize : size ≤ text.length) (hchunk : size ≤ count + 511) :
    ∃ inbound : List Chunk, inbound.flatMap Chunk.bytes = text ∧ receivedFor count inbound = text.take size := by
  have hmiddle : ((text.take size).drop (count - 1)).length = size - (count - 1) := by
    rw [List.length_drop, List.length_take, Nat.min_eq_left hsize]
  let chunk : Chunk := ⟨(text.take size).drop (count - 1),
    fun hnil => by rw [hnil, List.length_nil] at hmiddle; omega, by rw [hmiddle]; omega⟩
  have hfront : text.take (count - 1) ++ chunk.bytes = text.take size := by
    have hsplit := List.take_append_drop (count - 1) (text.take size)
    rwa [List.take_take, Nat.min_eq_left (by omega)] at hsplit
  refine ⟨bytewise (text.take (count - 1)) ++ chunk :: bytewise (text.drop size), ?_, ?_⟩
  · rw [List.flatMap_append, List.flatMap_cons, flatMap_bytewise, flatMap_bytewise, ← List.append_assoc,
      hfront, List.take_append_drop]
  · have hlength : (text.take (count - 1)).length = count - 1 := by
      rw [List.length_take, Nat.min_eq_left (by omega)]
    have hlast : count - (count - 1) - chunk.bytes.length = 0 := by
      change count - (count - 1) - ((text.take size).drop (count - 1)).length = 0
      omega
    rw [receivedFor_append _ _ (by rw [flatMap_bytewise, hlength]; omega), flatMap_bytewise, hlength,
      receivedFor_cons (by omega), hlast, receivedFor_zero, List.append_nil, hfront]

/-- Without the needle the loop ends with the size limit or with the stream. -/
theorem readUntil_of_not_firstAt {needle : List Byte} (inbound : List Chunk) (buffer : List Byte)
    (h : ∀ pos, ¬FirstAt needle (buffer ++ inbound.flatMap Chunk.bytes) pos) (hbuffer : buffer.length ≤ 16384) :
    readUntil needle inbound buffer =
      .error (if 16384 < (buffer ++ inbound.flatMap Chunk.bytes).length then .handshakeFailed
        else .transportFailure) := by
  induction inbound generalizing buffer with
  | nil => rw [readUntil, find_of_not_firstAt h, List.flatMap_nil, List.append_nil, if_neg (by omega)]
  | cons chunk later ih =>
      rw [readUntil, find_of_not_firstAt h]
      rw [List.flatMap_cons, ← List.append_assoc] at h ⊢
      by_cases hsize : (buffer ++ chunk.bytes).length > 16384
      · have hall : 16384 < ((buffer ++ chunk.bytes) ++ later.flatMap Chunk.bytes).length := by
          rw [List.length_append]
          omega
        rw [if_pos hall]
        exact if_pos hsize
      · have hlater := ih (buffer ++ chunk.bytes) h (by omega)
        simpa only [if_neg hsize] using hlater

/-! ### The handshake of a stream -/

/-- The outcome, with the bytes that are left unconsumed, and the bytes sent. -/
def handshake (inbound : List Chunk) (sent : Bool) : Except WebSocketError (List Byte) × List Byte :=
  ((accept inbound sent).1.map unconsumed, (accept inbound sent).2)

/-- What they are when so many bytes were received with the end of the request. -/
def handshakeAt (text : List Byte) (requestEnd size : Nat) (sent : Bool) :
    Except WebSocketError (List Byte) × List Byte :=
  if 16384 < size then (.error .handshakeFailed, [])
  else
    match findHeaderValue (text.take size) secWebSocketKey with
    | .error error => (.error error, [])
    | .ok key =>
        (if sent then .ok (text.drop requestEnd) else .error .transportFailure,
          switchingProtocols (acceptValue key))

variable {text : List Byte} {pos requestEnd size : Nat}

theorem handshakeAt_of_leadsTo {value : List Byte} (hsize : size ≤ 16384)
    (h : LeadsTo secWebSocketKey (text.take size) value) (sent : Bool) :
    handshakeAt text requestEnd size sent =
      (if sent then .ok (text.drop requestEnd) else .error .transportFailure,
        switchingProtocols (acceptValue value)) := by
  rw [handshakeAt, if_neg (by omega), findHeaderValue_eq_ok_iff.2 h]

theorem handshakeAt_of_not_leadsTo
    (h : size ≤ 16384 → ∀ value, ¬LeadsTo secWebSocketKey (text.take size) value) (sent : Bool) :
    handshakeAt text requestEnd size sent = (.error .handshakeFailed, []) := by
  rw [handshakeAt]
  by_cases hsize : 16384 < size
  · exact if_pos hsize
  · rw [if_neg hsize, findHeaderValue_of_not_leadsTo (h (by omega))]

/-- A stream with an empty line in it, cut. -/
def Upgrade.ofCut (h : FirstAt headerTerminator text pos) (inbound : List Chunk)
    (harrives : inbound.flatMap Chunk.bytes = text) : Upgrade where
  head := text.take pos
  stream := text.drop (pos + headerTerminator.length)
  inbound := inbound
  arrives := by
    obtain ⟨rest, hrest⟩ := h.occurs
    rw [harrives, ← List.drop_drop, ← hrest, List.drop_left, List.append_assoc, hrest, List.take_append_drop]
  terminated := by
    obtain ⟨rest, hrest⟩ := h.occurs
    have hlength := h.length_le
    have htext : text.take pos ++ headerTerminator ++ rest = text := by
      rw [List.append_assoc, hrest, List.take_append_drop]
    have hpos : (text.take pos).length = pos := List.length_take_of_le (by omega)
    rw [hpos, ← firstAt_append_iff (by rw [List.length_append, hpos]), htext]
    exact h

theorem handshake_of_firstAt (h : FirstAt headerTerminator text pos) {inbound : List Chunk}
    (harrives : inbound.flatMap Chunk.bytes = text) (sent : Bool) :
    handshake inbound sent = handshakeAt text (pos + headerTerminator.length)
      (receivedFor (pos + headerTerminator.length) inbound).length sent := by
  let upgrade := Upgrade.ofCut h inbound harrives
  have hlength := h.length_le
  have hpos : upgrade.head.length = pos := List.length_take_of_le (by omega)
  have hreceived : upgrade.received = receivedFor (pos + headerTerminator.length) inbound := by
    rw [Upgrade.received, hpos]
    rfl
  have htake : text.take upgrade.received.length = upgrade.received := by
    have hstarts := receivedFor_starts (pos + headerTerminator.length) inbound
    rw [harrives, ← hreceived] at hstarts
    exact (List.prefix_iff_eq_take.1 hstarts).symm
  rw [← hreceived]
  by_cases hsize : upgrade.received.length ≤ 16384
  · obtain ⟨connection, hunconsumed, haccept⟩ := upgrade.accept_of_size_le hsize sent
    have hdrop : connection.unconsumed = text.drop (pos + headerTerminator.length) := hunconsumed
    change accept inbound sent = _ at haccept
    rw [handshake, haccept, handshakeAt, if_neg (show ¬16384 < upgrade.received.length by omega), htake]
    cases findHeaderValue upgrade.received secWebSocketKey with
    | error error => rfl
    | ok key =>
        cases sent with
        | false => rfl
        | true =>
            rw [← hdrop]
            rfl
  · have haccept := upgrade.accept_of_size_gt (by omega) sent
    change accept inbound sent = _ at haccept
    rw [handshake, haccept, handshakeAt, if_pos (show 16384 < upgrade.received.length by omega)]
    rfl

theorem handshake_of_not_firstAt (h : ∀ pos, ¬FirstAt headerTerminator text pos) {inbound : List Chunk}
    (harrives : inbound.flatMap Chunk.bytes = text) (sent : Bool) :
    handshake inbound sent =
      (.error (if 16384 < text.length then .handshakeFailed else .transportFailure), []) := by
  subst harrives
  rw [handshake, accept, readUntil_of_not_firstAt inbound [] h (by decide), List.nil_append]
  rfl

/-- No two ways to cut the stream make a difference. -/
def SameHandshake (text : List Byte) : Prop :=
  ∀ one other : List Chunk, one.flatMap Chunk.bytes = text → other.flatMap Chunk.bytes = text →
    ∀ sent, handshake one sent = handshake other sent

/-- A request of admissible size either has its key and no receive can take the buffer past the limit, or
nothing that can be received with its end leads to a key. -/
def Settled (text : List Byte) (requestEnd : Nat) : Prop :=
  requestEnd ≤ 16384 →
    ((∃ key, LeadsTo secWebSocketKey (text.take requestEnd) key) ∧
      (text.length ≤ 16384 ∨ requestEnd + 511 ≤ 16384)) ∨
    ∀ value, ¬LeadsTo secWebSocketKey (text.take (min (requestEnd + 511) 16384)) value

theorem Settled.handshakeAt_eq (h : Settled text requestEnd) (hle : requestEnd ≤ size)
    (hsize : size ≤ text.length) (hchunk : size ≤ requestEnd + 511) (sent : Bool) :
    handshakeAt text requestEnd size sent = handshakeAt text requestEnd requestEnd sent := by
  by_cases hlimit : requestEnd ≤ 16384
  · obtain ⟨⟨key, hkey⟩, hroom⟩ | hnone := h hlimit
    · rw [handshakeAt_of_leadsTo hlimit hkey, handshakeAt_of_leadsTo (by omega) (hkey.take hle)]
    · have hnot : ∀ received ≤ requestEnd + 511, received ≤ 16384 →
          ∀ value, ¬LeadsTo secWebSocketKey (text.take received) value := by
        intro received hreceived hreceived' value hvalue
        exact hnone value (hvalue.take (by omega))
      rw [handshakeAt_of_not_leadsTo (hnot size hchunk),
        handshakeAt_of_not_leadsTo (hnot requestEnd (by omega))]
  · rw [handshakeAt, handshakeAt, if_pos (by omega), if_pos (by omega)]

/-- Two numbers of bytes that can be received with the end of the request. -/
theorem SameHandshake.handshakeAt_eq (h : SameHandshake text) (hfirst : FirstAt headerTerminator text pos)
    (hle : pos + headerTerminator.length ≤ size) (hsize : size ≤ text.length)
    (hchunk : size ≤ pos + headerTerminator.length + 511) (sent : Bool) :
    handshakeAt text (pos + headerTerminator.length) size sent
      = handshakeAt text (pos + headerTerminator.length) (pos + headerTerminator.length) sent := by
  have hpositive : 0 < pos + headerTerminator.length := Nat.lt_of_lt_of_le (by decide) (Nat.le_add_left _ _)
  obtain ⟨one, hone, hreceived⟩ := exists_cut hpositive hle hsize hchunk
  obtain ⟨other, hother, hreceived'⟩ := exists_cut hpositive (Nat.le_refl _) hfirst.length_le (Nat.le_add_right _ 511)
  have hsame := h one other hone hother sent
  rw [handshake_of_firstAt hfirst hone, handshake_of_firstAt hfirst hother, hreceived, hreceived',
    List.length_take_of_le hsize, List.length_take_of_le hfirst.length_le] at hsame
  exact hsame

theorem SameHandshake.settled (h : SameHandshake text) (hfirst : FirstAt headerTerminator text pos) :
    Settled text (pos + headerTerminator.length) := by
  intro hlimit
  have hlength := hfirst.length_le
  by_cases hkey : ∃ key, LeadsTo secWebSocketKey (text.take (pos + headerTerminator.length)) key
  · refine .inl ⟨hkey, ?_⟩
    by_contra hroom
    obtain ⟨key, hleads⟩ := hkey
    -- The cut that coalesces as much as it can goes over the limit.
    have hsame := h.handshakeAt_eq hfirst
      (show _ ≤ min text.length (pos + headerTerminator.length + 511) by omega) (by omega) (by omega) true
    rw [handshakeAt_of_leadsTo hlimit hleads, handshakeAt, if_pos (by omega)] at hsame
    exact switchingProtocols_ne_nil _ (congrArg Prod.snd hsame).symm
  · refine .inr fun value hvalue => ?_
    -- The cut that coalesces as much as the limit allows leads to a value that is not in the request.
    let size := min (min (pos + headerTerminator.length + 511) 16384) text.length
    have hleads : LeadsTo secWebSocketKey (text.take size) value := by
      rwa [List.take_eq_take_min] at hvalue
    have hsame := h.handshakeAt_eq hfirst (show _ ≤ size by omega) (by omega) (by omega) true
    rw [handshakeAt_of_leadsTo (by omega) hleads,
      handshakeAt_of_not_leadsTo fun _ key hkey' => hkey ⟨key, hkey'⟩] at hsame
    exact switchingProtocols_ne_nil _ (congrArg Prod.snd hsame)

/-- **Exactly the settled streams** have one handshake, however they are cut. -/
theorem sameHandshake_iff (text : List Byte) :
    SameHandshake text ↔
      ∀ pos, FirstAt headerTerminator text pos → Settled text (pos + headerTerminator.length) := by
  constructor
  · exact fun hsame pos hfirst => hsame.settled hfirst
  · intro hsettled one other hone hother sent
    by_cases hfirst : ∃ pos, FirstAt headerTerminator text pos
    · obtain ⟨pos, hfirst⟩ := hfirst
      have hcut : ∀ inbound : List Chunk, inbound.flatMap Chunk.bytes = text → handshake inbound sent =
          handshakeAt text (pos + headerTerminator.length) (pos + headerTerminator.length) sent := by
        intro inbound harrives
        have hstarts := (receivedFor_starts (pos + headerTerminator.length) inbound).length_le
        have hlength := hfirst.length_le
        have hlt := length_receivedFor_lt (show 0 < pos + headerTerminator.length from
          Nat.lt_of_lt_of_le (by decide) (Nat.le_add_left _ _)) inbound
        rw [← harrives] at hlength
        have hle := le_length_receivedFor hlength
        rw [handshake_of_firstAt hfirst harrives]
        rw [harrives] at hstarts
        exact (hsettled pos hfirst).handshakeAt_eq hle hstarts (by omega) sent
      rw [hcut one hone, hcut other hother]
    · have hnone : ∀ pos, ¬FirstAt headerTerminator text pos := fun pos hpos => hfirst ⟨pos, hpos⟩
      rw [handshake_of_not_firstAt hnone hone, handshake_of_not_firstAt hnone hother]

/-- A request without a key, and behind it bytes that look like the header. -/
def keyBehind : List Byte :=
  bytesOf "GET / HTTP/1.1\r\n\r\n" ++ bytesOf "Sec-WebSocket-Key: dGhlIHNhbXBsZQ==\r\n"

/-- In one piece the stream is accepted with the key behind the request, in two pieces it is refused. -/
theorem not_sameHandshake : ¬∀ text, SameHandshake text := by
  intro hall
  have hsame := hall keyBehind [⟨keyBehind, by decide, by decide⟩]
    [⟨keyBehind.take 18, by decide, by decide⟩, ⟨keyBehind.drop 18, by decide, by decide⟩] rfl rfl true
  have haccepted : (handshake [⟨keyBehind, by decide, by decide⟩] true).1 = .ok (keyBehind.drop 18) := rfl
  have hrefused : (handshake [⟨keyBehind.take 18, by decide, by decide⟩,
      ⟨keyBehind.drop 18, by decide, by decide⟩] true).1 = .error .handshakeFailed := rfl
  rw [hsame, hrefused] at haccepted
  cases haccepted

end RobotEmu
