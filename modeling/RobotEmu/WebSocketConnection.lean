import RobotEmu.Search
import RobotEmu.WebSocketBase64
import RobotEmu.WebSocketSha1

/-! `websocket_connection.cpp`. The bytes of the client come in the pieces that the socket chooses; the
handshake reads them up to the end of the upgrade request and leaves the rest in `residual`, from which
every later read takes first. -/

namespace RobotEmu

open Search

inductive WebSocketError where
  | handshakeFailed
  | transportFailure
  | connectionClosed
  deriving DecidableEq, Repr

/-- What one `receive` into an array of 512 bytes hands over. -/
structure Chunk where
  bytes : List Byte
  nonempty : bytes ≠ []
  length_le : bytes.length ≤ 512

/-! ### The handshake -/

def kRfc6455Guid : List Byte := bytesOf "258EAFA5-E914-47DA-95CA-C5AB0DC85B11"

def crlf : List Byte := bytesOf "\r\n"

def headerTerminator : List Byte := bytesOf "\r\n\r\n"

/-- Offset right after the needle, the buffer, and what is still to be received. A receive that fails
ends the list of chunks. -/
def readUntil (needle : List Byte) :
    List Chunk → List Byte → Except WebSocketError (Nat × List Byte × List Chunk)
  | inbound, buffer =>
      match find needle buffer with
      | some pos => .ok (pos + needle.length, buffer, inbound)
      | none =>
          match inbound with
          | [] => .error .transportFailure
          | chunk :: later =>
              -- The size is looked at before the needle is searched for again.
              if (buffer ++ chunk.bytes).length > 16384 then .error .handshakeFailed
              else readUntil needle later (buffer ++ chunk.bytes)

/-- `std::tolower` of the C locale. -/
def toLower (c : Byte) : Byte := if 0x41 ≤ c ∧ c ≤ 0x5A then c + 0x20 else c

/-- The characters of `" \t"`. -/
def isBlank (c : Byte) : Bool := c = 0x20 || c = 0x09

/-- From `find_first_not_of(" \t")` to `find_last_not_of(" \t")`, empty where there is neither. -/
def trim (value : List Byte) : List Byte :=
  ((value.dropWhile isBlank).reverse.dropWhile isBlank).reverse

def findHeaderValue (request headerName : List Byte) : Except WebSocketError (List Byte) :=
  match find (headerName.map toLower) (request.map toLower) with
  | none => .error .handshakeFailed
  | some pos =>
      match findFrom (bytesOf ":") request pos with
      | none => .error .handshakeFailed
      | some colon =>
          match findFrom crlf request colon with
          | none => .error .handshakeFailed
          | some lineEnd =>
              let value := trim ((request.drop (colon + 1)).take (lineEnd - colon - 1))
              if value = [] then .error .handshakeFailed else .ok value

def secWebSocketKey : List Byte := bytesOf "Sec-WebSocket-Key"

def acceptValue (key : List Byte) : List Byte := base64Encode (sha1 (key ++ kRfc6455Guid))

def switchingProtocols (acceptValue : List Byte) : List Byte :=
  bytesOf "HTTP/1.1 101 Switching Protocols\r\n" ++ bytesOf "Upgrade: websocket\r\n" ++
    bytesOf "Connection: Upgrade\r\n" ++ (bytesOf "Sec-WebSocket-Accept: " ++ acceptValue ++ crlf) ++ crlf

structure WebSocketConnection where
  inbound : List Chunk
  residual : List Byte

namespace WebSocketConnection

/-- The outcome and the bytes handed to `send`, which may fail. -/
def accept (inbound : List Chunk) (sent : Bool) :
    Except WebSocketError WebSocketConnection × List Byte :=
  match readUntil headerTerminator inbound [] with
  | .error error => (.error error, [])
  | .ok (headerEnd, requestBuffer, later) =>
      match findHeaderValue requestBuffer secWebSocketKey with
      | .error error => (.error error, [])
      | .ok key =>
          let response := switchingProtocols (acceptValue key)
          if sent then (.ok { inbound := later, residual := requestBuffer.drop headerEnd }, response)
          else (.error .transportFailure, response)

/-! ### Reading frames -/

/-- A member function that reads: on an error the connection stays as the reads have left it. -/
abbrev Call := ExceptT WebSocketError (StateM WebSocketConnection)

/-- The loop of `readExactBuffered`, and whether it ended with enough bytes. -/
def fill (count : Nat) : List Chunk → List Byte → Bool × WebSocketConnection
  | inbound, residual =>
      if residual.length < count then
        match inbound with
        | [] => (false, ⟨[], residual⟩)
        | chunk :: later => fill count later (residual ++ chunk.bytes)
      else (true, ⟨inbound, residual⟩)

def readExactBuffered (count : Nat) : Call (List Byte) :=
  ExceptT.mk fun connection =>
    match fill count connection.inbound connection.residual with
    | (false, connection) => (.error .connectionClosed, connection)
    | (true, connection) =>
        (.ok (connection.residual.take count),
          { connection with residual := connection.residual.drop count })

/-- The length of the payload: the seven bits of the second byte, or the two or eight bytes that they
announce. -/
def readPayloadLen (byte1 : Byte) : Call (BitVec 64) :=
  if byte1 &&& 0x7F = 126 then do
    let ext ← readExactBuffered 2
    return ((ext.getD 0 0).setWidth 64 <<< 8) ||| (ext.getD 1 0).setWidth 64
  else if byte1 &&& 0x7F = 127 then do
    let ext ← readExactBuffered 8
    return ext.foldl (fun payloadLen byte => (payloadLen <<< 8) ||| byte.setWidth 64) 0
  else return (byte1 &&& 0x7F).setWidth 64

def readMaskKey (byte1 : Byte) : Call (List Byte) :=
  if byte1 &&& 0x80 ≠ 0 then readExactBuffered 4 else return [0, 0, 0, 0]

def readPayload (payloadLen : BitVec 64) : Call (List Byte) :=
  if payloadLen > 0 then readExactBuffered payloadLen.toNat else return []

/-- The payload is dropped; unmasking it before that changes no length. -/
def pollForClose : Call Unit := do
  let header ← readExactBuffered 2
  let byte0 := header.getD 0 0
  let byte1 := header.getD 1 0
  let opcode := byte0 &&& 0x0F
  let payloadLen ← readPayloadLen byte1
  let _maskKey ← readMaskKey byte1
  let _payload ← readPayload payloadLen
  if opcode = 0x8 then throw .connectionClosed else return ()

/-! ### Sending text -/

/-- The bytes of a text frame: the byte of a final text frame, the length in the shortest form, the text. -/
def textFrame (text : List Byte) : List Byte :=
  let len := BitVec.ofNat 64 text.length
  let lengthBytes : List Byte :=
    if len ≤ 125 then [len.setWidth 8]
    else if len ≤ 0xFFFF then [126, ((len >>> 8) &&& 0xFF).setWidth 8, (len &&& 0xFF).setWidth 8]
    else 127 :: [56, 48, 40, 32, 24, 16, 8, 0].map fun shift => ((len >>> (shift : Nat)) &&& 0xFF).setWidth 8
  [0x81] ++ lengthBytes ++ text

/-- The outcome and the bytes handed to `send`, which may fail. -/
def sendText (text : List Byte) (sent : Bool) : Except WebSocketError Unit × List Byte :=
  (if sent then .ok () else .error .transportFailure, textFrame text)

/-- Bytes that came in or will come in and that no read has taken. -/
def unconsumed (connection : WebSocketConnection) : List Byte :=
  connection.residual ++ connection.inbound.flatMap Chunk.bytes

theorem run_bind_ok {α β : Type} {call : Call α} {next : α → Call β} {a : α}
    {connection after : WebSocketConnection} (h : call.run.run connection = (.ok a, after)) :
    (call >>= next).run.run connection = (next a).run.run after := by
  rw [ExceptT.run_bind, StateT.run_bind, h]
  rfl

theorem run_bind_error {α β : Type} {call : Call α} {next : α → Call β} {error : WebSocketError}
    {connection after : WebSocketConnection} (h : call.run.run connection = (.error error, after)) :
    (call >>= next).run.run connection = (.error error, after) := by
  rw [ExceptT.run_bind, StateT.run_bind, h]
  rfl

/-- What the loop can end with. -/
inductive Filled (count : Nat) (bytes : List Byte) : Bool × WebSocketConnection → Prop
  | enough (after : WebSocketConnection) (same : after.unconsumed = bytes)
      (length_le : count ≤ after.residual.length) : Filled count bytes (true, after)
  | failed (after : WebSocketConnection) (same : after.unconsumed = bytes) (short : bytes.length < count) :
      Filled count bytes (false, after)

theorem fill_spec (count : Nat) (inbound : List Chunk) (residual : List Byte) :
    Filled count (residual ++ inbound.flatMap Chunk.bytes) (fill count inbound residual) := by
  induction inbound generalizing residual with
  | nil =>
      rw [fill, List.flatMap_nil, List.append_nil]
      split_ifs with hshort
      · exact .failed _ (List.append_nil residual) hshort
      · exact .enough _ (List.append_nil residual) (Nat.le_of_not_lt hshort)
  | cons chunk later ih =>
      rw [fill]
      split_ifs with hshort
      · have hlater := ih (residual ++ chunk.bytes)
        rwa [List.append_assoc, ← List.flatMap_cons] at hlater
      · exact .enough _ rfl (Nat.le_of_not_lt hshort)

theorem run_readExactBuffered (count : Nat) (connection : WebSocketConnection) :
    (readExactBuffered count).run.run connection =
      match fill count connection.inbound connection.residual with
      | (false, after) => (.error .connectionClosed, after)
      | (true, after) =>
          (.ok (after.residual.take count), { after with residual := after.residual.drop count }) := rfl

/-- A read takes its bytes from the front of what is unconsumed, however that is cut. -/
theorem readExactBuffered_ok {connection : WebSocketConnection} {bytes rest : List Byte}
    (h : connection.unconsumed = bytes ++ rest) :
    ∃ after : WebSocketConnection, after.unconsumed = rest ∧
      (readExactBuffered bytes.length).run.run connection = (.ok bytes, after) := by
  rw [run_readExactBuffered]
  have hfilled := fill_spec bytes.length connection.inbound connection.residual
  generalize fill bytes.length connection.inbound connection.residual = filled at hfilled ⊢
  cases hfilled with
  | enough after same length_le =>
      have hsplit : after.residual ++ after.inbound.flatMap Chunk.bytes = bytes ++ rest := same.trans h
      have htake := congrArg (List.take bytes.length) hsplit
      have hdrop := congrArg (List.drop bytes.length) hsplit
      rw [List.take_append_of_le_length length_le, List.take_left] at htake
      rw [List.drop_append_of_le_length length_le, List.drop_left] at hdrop
      refine ⟨{ after with residual := after.residual.drop bytes.length }, hdrop, ?_⟩
      exact congrArg (fun taken => (Except.ok taken, _)) htake
  | failed after same short =>
      have hlength := congrArg List.length h
      rw [List.length_append] at hlength
      rw [← unconsumed] at short
      omega

/-- A read of more bytes than are left fails, and takes none. -/
theorem readExactBuffered_error {connection : WebSocketConnection} {count : Nat}
    (h : connection.unconsumed.length < count) :
    ∃ after : WebSocketConnection, after.unconsumed = connection.unconsumed ∧
      (readExactBuffered count).run.run connection = (.error .connectionClosed, after) := by
  rw [run_readExactBuffered]
  have hfilled := fill_spec count connection.inbound connection.residual
  generalize fill count connection.inbound connection.residual = filled at hfilled ⊢
  cases hfilled with
  | enough after same length_le =>
      have hlength := congrArg List.length same
      rw [unconsumed, List.length_append, ← unconsumed] at hlength
      omega
  | failed after same => exact ⟨after, same, rfl⟩

end WebSocketConnection

/-! ### What the handshake reads -/

/-- What has been received when a number of bytes is there: whole chunks. -/
def receivedFor : Nat → List Chunk → List Byte
  | _, [] => []
  | count, chunk :: later =>
      if count = 0 then [] else chunk.bytes ++ receivedFor (count - chunk.bytes.length) later

@[simp] theorem receivedFor_zero (inbound : List Chunk) : receivedFor 0 inbound = [] := by
  cases inbound <;> rfl

theorem receivedFor_cons {count : Nat} (h : 0 < count) (chunk : Chunk) (later : List Chunk) :
    receivedFor count (chunk :: later)
      = chunk.bytes ++ receivedFor (count - chunk.bytes.length) later := by
  rw [receivedFor, if_neg (Nat.ne_of_gt h)]

theorem le_length_receivedFor {count : Nat} {inbound : List Chunk}
    (h : count ≤ (inbound.flatMap Chunk.bytes).length) : count ≤ (receivedFor count inbound).length := by
  induction inbound generalizing count with
  | nil => exact h
  | cons chunk later ih =>
      rcases Nat.eq_zero_or_pos count with rfl | hpos
      · exact Nat.zero_le _
      · rw [List.flatMap_cons, List.length_append] at h
        have hlater : count - chunk.bytes.length ≤ _ := ih (by omega)
        rw [receivedFor_cons hpos, List.length_append]
        omega

theorem receivedFor_starts (count : Nat) (inbound : List Chunk) :
    receivedFor count inbound <+: inbound.flatMap Chunk.bytes := by
  induction inbound generalizing count with
  | nil => exact List.prefix_refl []
  | cons chunk later ih =>
      rw [receivedFor, List.flatMap_cons]
      split_ifs
      · exact List.nil_prefix
      · exact (List.prefix_append_right_inj _).2 (ih _)

/-- The search ends with the chunk that completes the first occurrence, if the size limit lets it get
there. -/
theorem readUntil_spec {needle : List Byte} {pos : Nat} (inbound : List Chunk) (buffer : List Byte)
    (h : FirstAt needle (buffer ++ inbound.flatMap Chunk.bytes) pos) (hbuffer : buffer.length ≤ 16384) :
    let received := buffer ++ receivedFor (pos + needle.length - buffer.length) inbound
    if received.length ≤ 16384 then
      ∃ later, readUntil needle inbound buffer = .ok (pos + needle.length, received, later) ∧
        received ++ later.flatMap Chunk.bytes = buffer ++ inbound.flatMap Chunk.bytes
    else readUntil needle inbound buffer = .error .handshakeFailed := by
  intro received
  have hfind := find_of_firstAt_append h
  by_cases henough : pos + needle.length ≤ buffer.length
  · have hreceived : received = buffer := by
      simp only [received, Nat.sub_eq_zero_of_le henough, receivedFor_zero, List.append_nil]
    rw [if_pos henough] at hfind
    rw [hreceived, if_pos hbuffer]
    refine ⟨inbound, ?_, rfl⟩
    cases inbound <;> rw [readUntil, hfind]
  · rw [if_neg henough] at hfind
    cases inbound with
    | nil =>
        have hlength := h.length_le
        rw [List.flatMap_nil, List.append_nil] at hlength
        exact absurd hlength henough
    | cons chunk later =>
        have hreceived : received = (buffer ++ chunk.bytes)
            ++ receivedFor (pos + needle.length - (buffer ++ chunk.bytes).length) later := by
          simp only [received]
          rw [receivedFor_cons (by omega), List.append_assoc, List.length_append, Nat.sub_add_eq]
        rw [readUntil, hfind]
        by_cases hsize : (buffer ++ chunk.bytes).length > 16384
        · rw [if_neg (by rw [hreceived, List.length_append]; omega)]
          exact if_pos hsize
        · rw [List.flatMap_cons, ← List.append_assoc] at h ⊢
          have hlater := readUntil_spec later (buffer ++ chunk.bytes) h (by omega)
          rw [← hreceived] at hlater
          simpa only [if_neg hsize] using hlater

/-- An upgrade request up to the first empty line, the bytes that follow it, and how the socket cuts
them. -/
structure Upgrade where
  head : List Byte
  stream : List Byte
  inbound : List Chunk
  arrives : inbound.flatMap Chunk.bytes = head ++ headerTerminator ++ stream
  terminated : FirstAt headerTerminator (head ++ headerTerminator) head.length

namespace Upgrade

open WebSocketConnection

/-- A request and a stream that come in one piece. -/
def whole (head stream : List Byte)
    (hterminated : find headerTerminator (head ++ headerTerminator) = some head.length)
    (hlength : (head ++ headerTerminator ++ stream).length ≤ 512) : Upgrade where
  head := head
  stream := stream
  inbound := [⟨head ++ headerTerminator ++ stream, by simp [headerTerminator, bytesOf], hlength⟩]
  arrives := by rw [List.flatMap_singleton]
  terminated := find_eq_some_iff.1 hterminated

variable (upgrade : Upgrade)

/-- What is in the buffer when the whole request is. -/
def received : List Byte :=
  receivedFor (upgrade.head.length + headerTerminator.length) upgrade.inbound

theorem firstAt_terminator :
    FirstAt headerTerminator (upgrade.inbound.flatMap Chunk.bytes) upgrade.head.length := by
  rw [upgrade.arrives, firstAt_append_iff (by rw [List.length_append])]
  exact upgrade.terminated

theorem le_length_received :
    upgrade.head.length + headerTerminator.length ≤ upgrade.received.length :=
  le_length_receivedFor upgrade.firstAt_terminator.length_le

/-- What was received begins with the request. -/
theorem received_starts (upgrade : Upgrade) :
    upgrade.head ++ headerTerminator <+: upgrade.received := by
  have hall : upgrade.head ++ headerTerminator <+: upgrade.inbound.flatMap Chunk.bytes := by
    rw [upgrade.arrives]
    exact List.prefix_append _ _
  refine List.prefix_of_prefix_length_le hall (receivedFor_starts _ _) ?_
  rw [List.length_append]
  exact upgrade.le_length_received

theorem accept_of_size_gt (h : 16384 < upgrade.received.length) (sent : Bool) :
    accept upgrade.inbound sent = (.error .handshakeFailed, []) := by
  have hread := readUntil_spec upgrade.inbound [] upgrade.firstAt_terminator (by decide)
  rw [List.length_nil, Nat.sub_zero, List.nil_append, ← received, if_neg (by omega)] at hread
  rw [accept, hread]

theorem accept_of_size_le (h : upgrade.received.length ≤ 16384) (sent : Bool) :
    ∃ connection : WebSocketConnection, connection.unconsumed = upgrade.stream ∧
      accept upgrade.inbound sent =
        match findHeaderValue upgrade.received secWebSocketKey with
        | .error error => (.error error, [])
        | .ok key =>
            (if sent then .ok connection else .error .transportFailure,
              switchingProtocols (acceptValue key)) := by
  have hread := readUntil_spec upgrade.inbound [] upgrade.firstAt_terminator (by decide)
  rw [List.length_nil, Nat.sub_zero, List.nil_append, ← received, if_pos h] at hread
  obtain ⟨later, hread, hall⟩ := hread
  let headerEnd := upgrade.head.length + headerTerminator.length
  refine ⟨⟨later, upgrade.received.drop headerEnd⟩, ?_, ?_⟩
  · rw [unconsumed, ← List.drop_append_of_le_length upgrade.le_length_received, hall, List.nil_append,
      upgrade.arrives]
    exact List.drop_left' List.length_append
  · rw [accept, hread]
    dsimp only
    cases findHeaderValue upgrade.received secWebSocketKey with
    | error error => rfl
    | ok key => cases sent <;> rfl

end Upgrade
end RobotEmu
