import RobotEmu.ServerRun

/-! The connection-serving loop of `main`. The bytes of the client come out of the socket in pieces that
the socket chooses; a turn of the loop decodes what has arrived, and then serves a frame, gives the
connection up, or receives the next piece. The frames it dispatches are those of the stream, whatever
the pieces are. -/

namespace RobotEmu

inductive TransportError where
  | bindFailed
  | listenFailed
  | acceptFailed
  | connectFailed
  | sendFailed
  | receiveFailed
  | connectionClosed
  deriving DecidableEq, Repr

/-- One direction of a TCP connection: the bytes sent and not received yet, and whether the sender has
closed its end. -/
structure Pipe where
  bytes : List Byte := []
  closed : Bool := false
  deriving DecidableEq, Repr

namespace Pipe

def send (pipe : Pipe) (bytes : List Byte) : Pipe := { pipe with bytes := pipe.bytes ++ bytes }

def close (pipe : Pipe) : Pipe := { pipe with closed := true }

/-- Size of the array that is received into. -/
def chunkSize : Nat := 4096

/-- `TcpConnection::receive`, `none` while it blocks. Of the bytes there, the socket hands over as many
as it likes (`count`), but at least one and no more than the array takes. -/
def receive (pipe : Pipe) (count : Nat) : Option (Except TransportError (List Byte × Pipe)) :=
  if pipe.bytes = [] then
    if pipe.closed then some (.error .connectionClosed) else none
  else
    let n := max 1 (min count chunkSize)
    some (.ok (pipe.bytes.take n, { pipe with bytes := pipe.bytes.drop n }))

/-- Everything a receive can do. -/
inductive Receive (pipe : Pipe) : Option (Except TransportError (List Byte × Pipe)) → Prop
  | blocks (empty : pipe.bytes = []) (opened : pipe.closed = false) : Receive pipe none
  | fails (empty : pipe.bytes = []) (closed : pipe.closed = true) :
      Receive pipe (some (.error .connectionClosed))
  | chunk (chunk rest : List Byte) (split : pipe.bytes = chunk ++ rest) (nonempty : chunk ≠ [])
      (length_le : chunk.length ≤ chunkSize) :
      Receive pipe (some (.ok (chunk, { pipe with bytes := rest })))

theorem receive_spec (pipe : Pipe) (count : Nat) : pipe.Receive (pipe.receive count) := by
  rw [receive]
  split_ifs with hempty hclosed
  · exact .fails hempty hclosed
  · exact .blocks hempty (Bool.eq_false_iff.2 hclosed)
  · have hpos := List.length_pos_iff.2 hempty
    apply Receive.chunk _ _ (List.take_append_drop _ _).symm
    · rw [← List.length_pos_iff, List.length_take]
      omega
    · rw [List.length_take, chunkSize]
      omega

theorem receive_of_empty {pipe : Pipe} (empty : pipe.bytes = []) (opened : pipe.closed = false)
    (count : Nat) : pipe.receive count = none := by
  rw [receive, if_pos empty, if_neg (by rw [opened]; decide)]

theorem exists_receive {pipe : Pipe} (h : pipe.bytes ≠ []) (count : Nat) :
    ∃ chunk rest, pipe.bytes = chunk ++ rest ∧ chunk ≠ [] ∧
      pipe.receive count = some (.ok (chunk, { pipe with bytes := rest })) := by
  have hreceive := pipe.receive_spec count
  generalize pipe.receive count = result at hreceive
  cases hreceive with
  | blocks empty | fails empty => exact absurd empty h
  | chunk chunk rest split nonempty => exact ⟨chunk, rest, split, nonempty, rfl⟩

end Pipe

/-- A request that was dispatched, the server it met, and whether its answer could be sent. -/
structure Answered where
  server : Server
  request : Frame
  sent : Bool

def Answered.response (answered : Answered) : Frame := (answered.server.dispatch answered.request).2

/-- The loop serving one client: the server, the two directions of the connection, the buffer, what has
been answered, and whether the connection is still being served. -/
structure Connection where
  server : Server
  inbound : Pipe
  outbound : Pipe
  received : List Byte
  answered : List Answered
  isOpen : Bool

namespace Connection

/-- A connection just accepted. -/
def accept (server : Server) (inbound : Pipe) : Connection := ⟨server, inbound, {}, [], [], true⟩

def close (connection : Connection) : Connection :=
  { connection with outbound := connection.outbound.close, isOpen := false }

/-- A decoded frame is erased, dispatched and answered. -/
def serve (connection : Connection) (decoded : FrameCodec.DecodeResult) (sent : Bool) : Connection :=
  let dispatched := connection.server.dispatch decoded.frame
  let served : Connection := { connection with
    server := dispatched.1
    received := connection.received.drop decoded.bytesConsumed
    answered := connection.answered ++ [⟨connection.server, decoded.frame, sent⟩] }
  if sent then { served with outbound := served.outbound.send (FrameCodec.encode dispatched.2) }
  else served.close

section
variable (connection : Connection) (decoded : FrameCodec.DecodeResult) (sent : Bool)

@[simp] theorem server_serve :
    (connection.serve decoded sent).server = connection.server.next (.request decoded.frame) := by
  cases sent <;> rfl

@[simp] theorem inbound_serve : (connection.serve decoded sent).inbound = connection.inbound := by
  cases sent <;> rfl

@[simp] theorem received_serve :
    (connection.serve decoded sent).received = connection.received.drop decoded.bytesConsumed := by
  cases sent <;> rfl

@[simp] theorem answered_serve : (connection.serve decoded sent).answered
    = connection.answered ++ [⟨connection.server, decoded.frame, sent⟩] := by
  cases sent <;> rfl

@[simp] theorem isOpen_serve : (connection.serve decoded sent).isOpen = (connection.isOpen && sent) := by
  cases sent with
  | false => exact (Bool.and_false _).symm
  | true => exact (Bool.and_true _).symm

theorem outbound_serve_true : (connection.serve decoded true).outbound = connection.outbound.send
    (FrameCodec.encode (connection.server.dispatch decoded.frame).2) := rfl

end

/-- A turn of the loop, of `receiveOneFrame` and of the loop around it. -/
def turn (connection : Connection) (count : Nat) (sent : Bool) : Connection :=
  if connection.isOpen then
    match FrameCodec.decode connection.received with
    | .ok decoded => connection.serve decoded sent
    | .error .incomplete =>
        match connection.inbound.receive count with
        | none => connection
        | some (.error _) => connection.close
        | some (.ok (chunk, inbound)) =>
            { connection with inbound := inbound, received := connection.received ++ chunk }
    | .error _ => connection.close
  else connection

/-- What happens next: a turn of the loop, or one of the other threads takes the mutex. -/
inductive Tick where
  | turn (count : Nat) (sent : Bool)
  | control
  | watchdog

def Tick.isTurn : Tick → Bool
  | turn _ _ => true
  | _ => false

def next (connection : Connection) : Tick → Connection
  | .turn count sent => connection.turn count sent
  | .control => { connection with server := connection.server.next .control }
  | .watchdog => { connection with server := connection.server.next .watchdog }

/-- Everything a turn can do to a connection that is being served. -/
inductive Turn (connection : Connection) (sent : Bool) : Connection → Prop
  | serves (decoded : FrameCodec.DecodeResult) (decodes : FrameCodec.decode connection.received = .ok decoded) :
      Turn connection sent (connection.serve decoded sent)
  | receives (chunk rest : List Byte) (waits : FrameCodec.decode connection.received = .error .incomplete)
      (split : connection.inbound.bytes = chunk ++ rest) (nonempty : chunk ≠ [])
      (length_le : chunk.length ≤ Pipe.chunkSize) :
      Turn connection sent { connection with
        inbound := { connection.inbound with bytes := rest }
        received := connection.received ++ chunk }
  | blocks (waits : FrameCodec.decode connection.received = .error .incomplete)
      (empty : connection.inbound.bytes = []) (opened : connection.inbound.closed = false) :
      Turn connection sent connection
  | disconnects (waits : FrameCodec.decode connection.received = .error .incomplete)
      (empty : connection.inbound.bytes = []) (closed : connection.inbound.closed = true) :
      Turn connection sent connection.close
  | refuses (e : ProtocolError) (ne : e ≠ .incomplete)
      (error : FrameCodec.decode connection.received = .error e) : Turn connection sent connection.close

theorem turn_spec {connection : Connection} (h : connection.isOpen = true) (count : Nat) (sent : Bool) :
    connection.Turn sent (connection.turn count sent) := by
  rw [turn, if_pos h]
  cases hdecode : FrameCodec.decode connection.received with
  | ok decoded => exact .serves decoded hdecode
  | error e =>
      by_cases he : e = .incomplete
      · subst he
        dsimp only
        have hreceive := connection.inbound.receive_spec count
        generalize connection.inbound.receive count = result at hreceive
        cases hreceive with
        | blocks empty opened => exact .blocks hdecode empty opened
        | fails empty closed => exact .disconnects hdecode empty closed
        | chunk chunk rest split nonempty length_le =>
            exact .receives chunk rest hdecode split nonempty length_le
      · have hclose : connection.Turn sent connection.close := .refuses e he hdecode
        cases e <;> first | exact absurd rfl he | exact hclose

theorem turn_of_closed {connection : Connection} (h : connection.isOpen = false) (count : Nat)
    (sent : Bool) : connection.turn count sent = connection := by
  rw [turn, if_neg (by rw [h]; decide)]

theorem turn_of_decodes {connection : Connection} (h : connection.isOpen = true)
    {decoded : FrameCodec.DecodeResult} (decodes : FrameCodec.decode connection.received = .ok decoded)
    (count : Nat) (sent : Bool) : connection.turn count sent = connection.serve decoded sent := by
  rw [turn, if_pos h, decodes]

theorem turn_of_empty {connection : Connection}
    (waits : FrameCodec.decode connection.received = .error .incomplete)
    (empty : connection.inbound.bytes = []) (opened : connection.inbound.closed = false) (count : Nat)
    (sent : Bool) : connection.turn count sent = connection := by
  rw [turn, waits]
  dsimp only
  rw [Pipe.receive_of_empty empty opened, ite_self]

theorem exists_turn {connection : Connection} (h : connection.isOpen = true)
    (waits : FrameCodec.decode connection.received = .error .incomplete)
    (nonempty : connection.inbound.bytes ≠ []) (count : Nat) (sent : Bool) :
    ∃ chunk rest, connection.inbound.bytes = chunk ++ rest ∧ chunk ≠ [] ∧
      connection.turn count sent = { connection with
        inbound := { connection.inbound with bytes := rest }
        received := connection.received ++ chunk } := by
  obtain ⟨chunk, rest, split, hchunk, hreceive⟩ := Pipe.exists_receive nonempty count
  refine ⟨chunk, rest, split, hchunk, ?_⟩
  rw [turn, if_pos h, waits]
  dsimp only
  rw [hreceive]

/-- However it is served, the server is where a run of the server leads. -/
theorem reachable_next {connection : Connection} (h : Server.Reachable connection.server) (tick : Tick) :
    Server.Reachable (connection.next tick).server := by
  cases tick with
  | control => exact h.next .control
  | watchdog => exact h.next .watchdog
  | turn count sent =>
      rw [next]
      cases hopen : connection.isOpen with
      | false =>
          rw [turn_of_closed hopen]
          exact h
      | true =>
          have hturn := turn_spec hopen count sent
          generalize connection.turn count sent = connection' at hturn
          cases hturn with
          | serves decoded decodes =>
              rw [server_serve]
              exact h.next (.request decoded.frame)
          | receives | blocks | disconnects | refuses => exact h

theorem reachable_run {server : Server} (h : Server.Reachable server) (inbound : Pipe)
    (ticks : List Tick) :
    Server.Reachable (Machine.run next (accept server inbound) ticks).server :=
  Machine.run_invariant (I := fun connection : Connection => Server.Reachable connection.server)
    (fun _ tick hreach => reachable_next hreach tick) h ticks

/-! ### The frames of the stream -/

/-- The frames still to be dispatched: those of the bytes buffered and the bytes to come. -/
def pending (connection : Connection) : List Frame :=
  (FrameCodec.decoder.frames (connection.received ++ connection.inbound.bytes)).1

/-- The loop delivers a stream: what it has dispatched and what is pending are its frames, the buffer is
bounded, and the connection is given up only for a lost answer or when nothing is pending. -/
structure Delivers (stream : List Byte) (connection : Connection) : Prop where
  frames : connection.answered.map (·.request) ++ connection.pending
    = (FrameCodec.decoder.frames stream).1
  buffered : connection.received.length
    < FrameCodec.headerSize + FrameCodec.maxPayloadSize.toNat + Pipe.chunkSize
  given_up : connection.isOpen = false →
    connection.pending = [] ∨ ∃ answered ∈ connection.answered, answered.sent = false

theorem pending_of_decodes {connection : Connection} {decoded : FrameCodec.DecodeResult} (sent : Bool)
    (h : FrameCodec.decode connection.received = .ok decoded) :
    connection.pending = decoded.frame :: (connection.serve decoded sent).pending := by
  rw [pending, pending, received_serve, inbound_serve]
  exact FrameCodec.decoder.frames_append_of_frame _ (FrameCodec.verdict_eq_frame_iff.2 h)

theorem pending_of_waits {connection : Connection} (empty : connection.inbound.bytes = [])
    (h : FrameCodec.decode connection.received = .error .incomplete) : connection.pending = [] := by
  rw [pending, empty, List.append_nil]
  exact congrArg Prod.fst
    (FrameCodec.decoder.frames_of_incomplete (FrameCodec.verdict_eq_incomplete_iff.2 h))

theorem pending_of_refuses {connection : Connection} {e : ProtocolError} (ne : e ≠ .incomplete)
    (h : FrameCodec.decode connection.received = .error e) : connection.pending = [] := by
  rw [pending]
  exact congrArg Prod.fst
    (FrameCodec.decoder.frames_append_of_malformed _ (FrameCodec.verdict_eq_malformed_iff.2 ⟨e, ne, h⟩))

theorem pending_of_receives {connection : Connection} {chunk rest : List Byte}
    (split : connection.inbound.bytes = chunk ++ rest) :
    pending { connection with
      inbound := { connection.inbound with bytes := rest }
      received := connection.received ++ chunk } = connection.pending := by
  rw [pending, pending, split, List.append_assoc]

theorem Delivers.accept (server : Server) (inbound : Pipe) :
    Delivers inbound.bytes (accept server inbound) where
  frames := rfl
  buffered := (by decide : 0 < FrameCodec.headerSize + FrameCodec.maxPayloadSize.toNat + Pipe.chunkSize)
  given_up := nofun

theorem Delivers.close {stream : List Byte} {connection : Connection} (h : Delivers stream connection)
    (hpending : connection.pending = []) : Delivers stream connection.close where
  frames := h.frames
  buffered := h.buffered
  given_up _ := .inl hpending

theorem Delivers.turn {stream : List Byte} {connection : Connection} (h : Delivers stream connection)
    (count : Nat) (sent : Bool) : Delivers stream (connection.turn count sent) := by
  cases hopen : connection.isOpen with
  | false =>
      rw [turn_of_closed hopen]
      exact h
  | true =>
      have hturn := turn_spec hopen count sent
      generalize connection.turn count sent = connection' at hturn
      cases hturn with
      | serves decoded decodes =>
          have hpending := pending_of_decodes sent decodes
          refine ⟨?_, ?_, fun hclosed => .inr ?_⟩
          · have hframes := h.frames
            rw [hpending] at hframes
            rw [answered_serve, List.map_append, List.append_assoc]
            exact hframes
          · have hbuffered := h.buffered
            rw [received_serve, List.length_drop]
            omega
          · rw [isOpen_serve, hopen, Bool.true_and] at hclosed
            rw [answered_serve]
            exact ⟨_, List.mem_append_right _ (List.mem_singleton_self _), hclosed⟩
      | receives chunk rest waits split nonempty length_le =>
          have hshort := FrameCodec.length_lt_of_incomplete waits
          refine ⟨?_, ?_, fun hclosed => ?_⟩
          · rw [pending_of_receives split]
            exact h.frames
          · rw [List.length_append]
            omega
          · rw [pending_of_receives split]
            exact h.given_up hclosed
      | blocks => exact h
      | disconnects waits empty => exact h.close (pending_of_waits empty waits)
      | refuses e ne error => exact h.close (pending_of_refuses ne error)

theorem Delivers.next {stream : List Byte} {connection : Connection} (h : Delivers stream connection)
    (tick : Tick) : Delivers stream (connection.next tick) := by
  cases tick with
  | turn count sent => exact h.turn count sent
  | control | watchdog => exact ⟨h.frames, h.buffered, h.given_up⟩

/-! ### How long it takes -/

/-- A bound for the turns until every pending frame is dispatched. -/
def turnsLeft (connection : Connection) : Nat :=
  if connection.isOpen = true ∧ connection.pending ≠ [] then
    connection.pending.length + connection.inbound.bytes.length
  else 0

theorem turnsLeft_le (connection : Connection) :
    connection.turnsLeft ≤ connection.pending.length + connection.inbound.bytes.length := by
  rw [turnsLeft]
  split_ifs
  · exact Nat.le_refl _
  · exact Nat.zero_le _

theorem turnsLeft_of_closed {connection : Connection} (h : connection.isOpen = false) :
    connection.turnsLeft = 0 := by
  rw [turnsLeft, if_neg fun hopen => absurd hopen.1 (by rw [h]; decide)]

theorem turnsLeft_of_pending {connection : Connection} (h : connection.pending = []) :
    connection.turnsLeft = 0 := by
  rw [turnsLeft, if_neg fun hpending => hpending.2 h]

theorem Delivers.pending_of_turnsLeft {stream : List Byte} {connection : Connection}
    (h : Delivers stream connection)
    (hlost : ¬∃ answered ∈ connection.answered, answered.sent = false)
    (hleft : connection.turnsLeft = 0) : connection.pending = [] := by
  cases hopen : connection.isOpen with
  | false => exact (h.given_up hopen).resolve_right hlost
  | true =>
      by_contra hpending
      have hpos := List.length_pos_iff.2 hpending
      rw [turnsLeft, if_pos ⟨hopen, hpending⟩] at hleft
      omega

theorem turnsLeft_turn (connection : Connection) (count : Nat) (sent : Bool) :
    (connection.turn count sent).turnsLeft ≤ connection.turnsLeft - 1 := by
  cases hopen : connection.isOpen with
  | false =>
      rw [turn_of_closed hopen, turnsLeft_of_closed hopen]
  | true =>
      have hturn := turn_spec hopen count sent
      generalize connection.turn count sent = connection' at hturn
      cases hturn with
      | serves decoded decodes =>
          have hpending := pending_of_decodes sent decodes
          have hbound := (connection.serve decoded sent).turnsLeft_le
          rw [inbound_serve] at hbound
          have hleft : connection.turnsLeft
              = connection.pending.length + connection.inbound.bytes.length :=
            if_pos ⟨hopen, by rw [hpending]; exact List.cons_ne_nil _ _⟩
          rw [hleft, hpending, List.length_cons]
          omega
      | receives chunk rest waits split nonempty length_le =>
          have hchunk := List.length_pos_iff.2 nonempty
          rw [turnsLeft, turnsLeft, pending_of_receives split, split, List.length_append]
          split_ifs
          · dsimp only
            omega
          · exact Nat.zero_le _
      | blocks waits empty =>
          rw [turnsLeft_of_pending (pending_of_waits empty waits)]
      | disconnects => exact Nat.zero_le _
      | refuses => exact Nat.zero_le _

theorem turnsLeft_next (connection : Connection) (tick : Tick) :
    (connection.next tick).turnsLeft ≤ connection.turnsLeft - if tick.isTurn then 1 else 0 := by
  cases tick with
  | turn count sent => exact connection.turnsLeft_turn count sent
  | control | watchdog => exact Nat.le_refl _

/-- However the bytes of a stream arrive, the loop dispatches the frames that the stream starts with, up
to the first answer that could not be sent, and its buffer stays bounded. -/
theorem segmentation_invisible (stream : List Byte) : ∃ frames rest,
    (∀ frame ∈ frames, FrameCodec.WellFormed frame) ∧
    stream = frames.flatMap FrameCodec.encode ++ rest ∧
    (∀ frame, FrameCodec.WellFormed frame → ¬FrameCodec.encode frame <+: rest) ∧
    ∀ server closed ticks,
      let connection := Machine.run next (accept server ⟨stream, closed⟩) ticks
      connection.received.length < FrameCodec.headerSize + FrameCodec.maxPayloadSize.toNat + 4096 ∧
      connection.answered.map (·.request) <+: frames ∧
      ((∀ answered ∈ connection.answered, answered.sent = true) →
        (connection.isOpen = false ∨ frames.length + stream.length ≤ ticks.countP Tick.isTurn) →
        connection.answered.map (·.request) = frames) := by
  refine ⟨(FrameCodec.decoder.frames stream).1, (FrameCodec.decoder.frames stream).2, ?_, ?_, ?_, ?_⟩
  · exact FrameCodec.decoder.forall_mem_frames FrameCodec.wellFormed_of_verdict stream
  · refine FrameCodec.decoder.flatMap_frames (fun h => ?_) stream
    exact FrameCodec.take_of_decode (FrameCodec.verdict_eq_frame_iff.1 h)
  · rintro frame hwell ⟨tail, htail⟩
    have hfirst := FrameCodec.verdict_encode hwell tail
    rw [htail] at hfirst
    exact FrameCodec.decoder.decode_frames_rest stream _ _ hfirst
  · intro server closed ticks connection
    have hdelivers : Delivers stream connection :=
      Machine.run_invariant (fun _ tick h => h.next tick) (Delivers.accept server ⟨stream, closed⟩) ticks
    refine ⟨hdelivers.buffered, ⟨_, hdelivers.frames⟩, fun hsent hdone => ?_⟩
    have hlost : ¬∃ answered ∈ connection.answered, answered.sent = false :=
      fun ⟨answered, hmem, hunsent⟩ => absurd (hsent answered hmem) (by rw [hunsent]; decide)
    have hpending : connection.pending = [] := by
      rcases hdone with hclosed | hturns
      · exact (hdelivers.given_up hclosed).resolve_right hlost
      · have hstart := (accept server ⟨stream, closed⟩).turnsLeft_le
        have hleft : connection.turnsLeft ≤ 0 :=
          calc connection.turnsLeft
              ≤ (accept server ⟨stream, closed⟩).turnsLeft - ticks.countP Tick.isTurn :=
                Machine.measure_run_le (I := fun _ => True) (fun _ _ _ => trivial)
                  (fun connection tick _ => connection.turnsLeft_next tick) trivial ticks
            _ = 0 := Nat.sub_eq_zero_of_le (Nat.le_trans hstart hturns)
        exact hdelivers.pending_of_turnsLeft hlost (Nat.le_zero.1 hleft)
    rw [← hdelivers.frames, hpending, List.append_nil]

end Connection
end RobotEmu
