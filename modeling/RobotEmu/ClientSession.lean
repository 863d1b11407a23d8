import Mathlib.Data.List.Forall2
import RobotEmu.CliClient
import RobotEmu.ServerConnection

/-! One client and the loop that serves it, joined by the two directions of a TCP connection. The client
executes its commands one after the other, and each call of `execute` throws away the buffer it received
into. At most one request or response is under way at any time, so nothing is in that buffer but the
answer. -/

namespace RobotEmu

/-- The client between two calls of `execute`, or in one with what it has received. -/
inductive Client where
  | idle
  | executing (command : Command) (received : List Byte)

/-- A call of `execute` that has returned, with the bytes behind the frame in the buffer it threw
away. -/
structure Execution where
  command : Command
  result : Except CliError Outcome
  discarded : List Byte

/-- `commands` are those still to be executed. -/
structure Session where
  commands : List Command
  client : Client
  executions : List Execution
  connection : Connection

namespace Session

/-- A client that has just connected. -/
def start (server : Server) (commands : List Command) : Session :=
  ⟨commands, .idle, [], Connection.accept server {}⟩

/-- The call under way returns. -/
def finish (session : Session) (command : Command) (result : Except CliError Outcome)
    (discarded : List Byte) : Session :=
  { session with
    client := .idle
    executions := session.executions ++ [⟨command, result, discarded⟩] }

/-- The client begins a call and sends the request, or makes a turn of the receiving loop in it. -/
def clientTurn (session : Session) (count : Nat) : Session :=
  match session.client with
  | .idle =>
      match session.commands with
      | [] => session
      | command :: commands =>
          { session with
            commands := commands
            client := .executing command []
            connection := { session.connection with
              inbound := session.connection.inbound.send
                (FrameCodec.encode (buildRequestFrame command)) } }
  | .executing command received =>
      match FrameCodec.decode received with
      | .ok decoded =>
          session.finish command (interpretResponse command decoded.frame)
            (received.drop decoded.bytesConsumed)
      | .error .incomplete =>
          match session.connection.outbound.receive count with
          | none => session
          | some (.error _) => session.finish command (.error .transportFailure) received
          | some (.ok (chunk, outbound)) =>
              { session with
                client := .executing command (received ++ chunk)
                connection := { session.connection with outbound := outbound } }
      | .error _ => session.finish command (.error .protocolFailure) received

/-- What happens next: a turn of either party, whose socket hands over `count` bytes if it receives, or
one of the other threads takes the mutex. -/
inductive Event where
  | client (count : Nat)
  | server (count : Nat)
  | control
  | watchdog

/-- The channels are reliable, so an answer can always be sent. -/
def next (session : Session) : Event → Session
  | .client count => session.clientTurn count
  | .server count => { session with connection := session.connection.turn count true }
  | .control => { session with connection := session.connection.next .control }
  | .watchdog => { session with connection := session.connection.next .watchdog }

/-- A turn of the client does not touch the server. -/
theorem server_clientTurn (session : Session) (count : Nat) :
    (session.clientTurn count).connection.server = session.connection.server := by
  unfold clientTurn
  split
  · split <;> rfl
  · split
    · rfl
    · split <;> rfl
    · rfl

/-- The server a session talks to is where a run of the server leads. -/
theorem reachable_run {server : Server} (h : Server.Reachable server) (commands : List Command)
    (events : List Event) :
    Server.Reachable (Machine.run next (start server commands) events).connection.server := by
  refine Machine.run_invariant (I := fun session : Session => Server.Reachable session.connection.server)
    (fun session event hreach => ?_) h events
  cases event with
  | client count =>
      rw [next, server_clientTurn]
      exact hreach
  | server count => exact Connection.reachable_next hreach (.turn count true)
  | control => exact Connection.reachable_next hreach .control
  | watchdog => exact Connection.reachable_next hreach .watchdog

/-! ### One request at a time -/

/-- A call of `execute` and the answer it has read: that to its own request, in agreement with it, and
to the last byte. -/
structure Reads (execution : Execution) (answered : Answered) : Prop where
  request : answered.request = buildRequestFrame execution.command
  interprets :
    Interprets answered.server execution.command answered.response execution.result
  discarded : execution.discarded = []

/-- Where the one request or response under way is, after the answers already read. -/
inductive Stage (session : Session) (commands : List Command) (earlier : List Answered) : Prop
  | idle (client : session.client = .idle) (received : session.connection.received = [])
      (inbound : session.connection.inbound.bytes = [])
      (outbound : session.connection.outbound.bytes = [])
      (answered : session.connection.answered = earlier)
      (rest : session.commands = commands)
  | requesting (command : Command) (client : session.client = .executing command [])
      (request : session.connection.received ++ session.connection.inbound.bytes
        = FrameCodec.encode (buildRequestFrame command))
      (outbound : session.connection.outbound.bytes = [])
      (answered : session.connection.answered = earlier)
      (rest : command :: session.commands = commands)
  | responding (command : Command) (received : List Byte) (last : Answered)
      (client : session.client = .executing command received)
      (quiet : session.connection.received = [])
      (inbound : session.connection.inbound.bytes = [])
      (request : last.request = buildRequestFrame command)
      (jointCount : last.server.robot.jointCount ≤ Server.maxJointCount)
      (response : received ++ session.connection.outbound.bytes = FrameCodec.encode last.response)
      (answered : session.connection.answered = earlier ++ [last])
      (rest : command :: session.commands = commands)

/-- The connection is open in both directions and its robot fits a status report. -/
structure Sound (connection : Connection) : Prop where
  isOpen : connection.isOpen = true
  inbound : connection.inbound.closed = false
  outbound : connection.outbound.closed = false
  jointCount : connection.server.robot.jointCount ≤ Server.maxJointCount

/-- Every call that has returned has read the answer to its request, and the rest are under way one
at a time. -/
structure Paired (commands : List Command) (session : Session) : Prop where
  sound : Sound session.connection
  stage : ∃ left earlier, commands = session.executions.map (·.command) ++ left ∧
    List.Forall₂ Reads session.executions earlier ∧ session.Stage left earlier

theorem Paired.start (server : Server) (h : server.robot.jointCount ≤ Server.maxJointCount)
    (commands : List Command) : Paired commands (start server commands) where
  sound := ⟨rfl, rfl, rfl, h⟩
  stage := ⟨commands, [], rfl, .nil, .idle rfl rfl rfl rfl rfl rfl⟩

theorem Sound.item {connection : Connection} (h : Sound connection) (item : Item) :
    Sound { connection with server := connection.server.next item } where
  isOpen := h.isOpen
  inbound := h.inbound
  outbound := h.outbound
  jointCount := by
    rw [Server.jointCount_next]
    exact h.jointCount

/-- The other threads do not touch what is under way. -/
theorem Paired.item {commands : List Command} {session : Session} (h : Paired commands session)
    (item : Item) : Paired commands { session with
      connection := { session.connection with server := session.connection.server.next item } } where
  sound := h.sound.item item
  stage := by
    obtain ⟨left, earlier, hleft, hreads, hstage⟩ := h.stage
    refine ⟨left, earlier, hleft, hreads, ?_⟩
    cases hstage with
    | idle client received inbound outbound answered rest =>
        exact .idle client received inbound outbound answered rest
    | requesting command client request outbound answered rest =>
        exact .requesting command client request outbound answered rest
    | responding command received last client quiet inbound request jointCount response answered rest =>
        exact .responding command received last client quiet inbound request jointCount response
          answered rest

/-! ### What a turn does -/

inductive Party where
  | client
  | server
  deriving DecidableEq

/-- The party has something to decode, to receive or to send. -/
def Able (session : Session) : Party → Prop
  | .client =>
      match session.client with
      | .idle => session.commands ≠ []
      | .executing _ received =>
          FrameCodec.decode received ≠ .error .incomplete ∨ session.connection.outbound.bytes ≠ []
  | .server =>
      FrameCodec.decode session.connection.received ≠ .error .incomplete ∨
        session.connection.inbound.bytes ≠ []

/-- The longest encoding of an answer. -/
def answerBound : Nat := FrameCodec.headerSize + FrameCodec.maxPayloadSize.toNat

/-- Turns that a command takes at most, over those of its request's dispatch and of its return. -/
def commandWork : Nat := FrameCodec.headerSize + kEncodedSize + answerBound + 3

/-- A bound for the turns until every command is executed. -/
def work (session : Session) : Nat :=
  session.commands.length * commandWork
    + (match session.client with
      | .idle => 0
      | .executing _ _ =>
          if session.connection.answered.length = session.executions.length then answerBound + 2 else 1)
    + session.connection.inbound.bytes.length + session.connection.outbound.bytes.length

theorem next_server_of_not_able {session : Session} (h : Sound session.connection)
    (hable : ¬session.Able .server) (count : Nat) : session.next (.server count) = session := by
  rw [Able, not_or, not_not, not_not] at hable
  rw [next, Connection.turn_of_empty hable.1 hable.2 h.inbound]

theorem next_client_of_not_able {session : Session} (h : Sound session.connection)
    (hable : ¬session.Able .client) (count : Nat) : session.next (.client count) = session := by
  obtain ⟨commands, client, executions, connection⟩ := session
  cases client with
  | idle =>
      obtain rfl : commands = [] := not_not.1 hable
      rfl
  | executing command received =>
      rw [Able, not_or, not_not, not_not] at hable
      obtain ⟨hwait, hempty⟩ := hable
      rw [next, clientTurn]
      dsimp only
      rw [hwait]
      dsimp only
      rw [Pipe.receive_of_empty hempty h.outbound]

theorem work_idle (commands : List Command) (executions : List Execution) (connection : Connection) :
    work ⟨commands, .idle, executions, connection⟩ = commands.length * commandWork
      + connection.inbound.bytes.length + connection.outbound.bytes.length := by
  rw [work, Nat.add_zero]

/-- While the request is under way. -/
theorem work_requesting {executions : List Execution} {connection : Connection}
    (h : connection.answered.length = executions.length) (commands : List Command) (command : Command)
    (received : List Byte) :
    work ⟨commands, .executing command received, executions, connection⟩
      = commands.length * commandWork + (answerBound + 2)
        + connection.inbound.bytes.length + connection.outbound.bytes.length := by
  rw [work]
  dsimp only
  rw [if_pos h]

/-- While the response is under way. -/
theorem work_responding {executions : List Execution} {connection : Connection}
    (h : connection.answered.length = executions.length + 1) (commands : List Command)
    (command : Command) (received : List Byte) :
    work ⟨commands, .executing command received, executions, connection⟩
      = commands.length * commandWork + 1
        + connection.inbound.bytes.length + connection.outbound.bytes.length := by
  rw [work]
  dsimp only
  rw [if_neg (by omega)]

theorem not_able_server {session : Session} (received : session.connection.received = [])
    (inbound : session.connection.inbound.bytes = []) : ¬session.Able .server := by
  rintro (hdecode | hbytes)
  · rw [received] at hdecode
    exact hdecode FrameCodec.decode_nil
  · exact hbytes inbound

theorem Sound.serve {connection : Connection} (h : Sound connection)
    (decoded : FrameCodec.DecodeResult) : Sound (connection.serve decoded true) where
  isOpen := by rw [Connection.isOpen_serve, h.isOpen]; rfl
  inbound := by rw [Connection.inbound_serve]; exact h.inbound
  outbound := h.outbound
  jointCount := by
    rw [Connection.server_serve, Server.jointCount_next]
    exact h.jointCount

theorem length_response_le {server : Server} (h : server.robot.jointCount ≤ Server.maxJointCount)
    (command : Command) :
    (FrameCodec.encode (server.dispatch (buildRequestFrame command)).2).length ≤ answerBound := by
  rw [FrameCodec.length_encode, answerBound]
  exact Nat.add_le_add_left (Server.wellFormed_response h command) _

/-- A turn of the server that is able to make one: the request arrives, or is answered. -/
theorem Paired.server_turn {commands : List Command} {session : Session} (h : Paired commands session)
    (hable : session.Able .server) (count : Nat) :
    Paired commands (session.next (.server count)) ∧
      (session.next (.server count)).work < session.work := by
  obtain ⟨hsound, left, earlier, hleft, hreads, hstage⟩ := h
  obtain ⟨later, _, executions, connection⟩ := session
  cases hstage with
  | idle client received inbound => exact absurd hable (not_able_server received inbound)
  | responding command received last client quiet inbound =>
      exact absurd hable (not_able_server quiet inbound)
  | requesting command client request outbound answered rest =>
      obtain rfl := client
      have hlength : connection.answered.length = executions.length := by
        rw [answered, hreads.length_eq]
      rw [work_requesting hlength]
      rcases FrameCodec.decode_part_of_encode (wellFormed_buildRequestFrame command) request with
        ⟨hempty, hdecode⟩ | ⟨hnonempty, hdecode⟩
      · -- The request is complete: it is dispatched, and the response is under way.
        have hbound := length_response_le hsound.jointCount command
        have hsent : (connection.serve ⟨buildRequestFrame command, connection.received.length⟩
            true).outbound.bytes
            = FrameCodec.encode (connection.server.dispatch (buildRequestFrame command)).2 := by
          rw [Connection.outbound_serve_true, Pipe.send, outbound]
          rfl
        rw [next, Connection.turn_of_decodes hsound.isOpen hdecode]
        constructor
        · refine ⟨hsound.serve _, left, earlier, hleft, hreads, ?_⟩
          refine .responding command [] ⟨connection.server, buildRequestFrame command, true⟩
            rfl ?_ ?_ rfl hsound.jointCount hsent ?_ rest
          · rw [Connection.received_serve]
            exact List.drop_length
          · rw [Connection.inbound_serve]
            exact hempty
          · rw [Connection.answered_serve, answered]
        · rw [work_responding (by rw [Connection.answered_serve, List.length_append, hlength]; rfl),
            hsent, Connection.inbound_serve]
          dsimp only at hbound ⊢
          omega
      · obtain ⟨chunk, tail, hsplit, hchunk, hturn⟩ :=
          Connection.exists_turn hsound.isOpen hdecode hnonempty count true
        have hpos := List.length_pos_iff.2 hchunk
        rw [next, hturn]
        constructor
        · refine ⟨⟨hsound.isOpen, hsound.inbound, hsound.outbound, hsound.jointCount⟩, left, earlier,
            hleft, hreads, .requesting command rfl ?_ outbound answered rest⟩
          rw [← request, hsplit, List.append_assoc]
        · rw [work_requesting (by exact hlength), hsplit, List.length_append]
          dsimp only
          omega

theorem length_request_le (command : Command) :
    (FrameCodec.encode (buildRequestFrame command)).length ≤ FrameCodec.headerSize + kEncodedSize := by
  rw [FrameCodec.length_encode]
  exact Nat.add_le_add_left (length_buildRequestFrame_le command) _

theorem wellFormed_of_request {last : Answered}
    (h : last.server.robot.jointCount ≤ Server.maxJointCount) {command : Command}
    (request : last.request = buildRequestFrame command) : FrameCodec.WellFormed last.response := by
  rw [Answered.response, request]
  exact Server.wellFormed_response h command

theorem Reads.of_response {last : Answered} (h : last.server.robot.jointCount ≤ Server.maxJointCount)
    {command : Command} (request : last.request = buildRequestFrame command) :
    Reads ⟨command, interpretResponse command last.response, []⟩ last where
  request := request
  interprets := by
    rw [Answered.response, request]
    exact interprets_response h command
  discarded := rfl

/-- A turn of the client that is able to make one: it sends a request, or the response arrives, or the
call returns. -/
theorem Paired.client_turn {commands : List Command} {session : Session} (h : Paired commands session)
    (hable : session.Able .client) (count : Nat) :
    Paired commands (session.next (.client count)) ∧
      (session.next (.client count)).work < session.work := by
  obtain ⟨hsound, left, earlier, hleft, hreads, hstage⟩ := h
  obtain ⟨later, _, executions, connection⟩ := session
  cases hstage with
  | idle client received inbound outbound answered rest =>
      obtain rfl := client
      obtain ⟨command, later, rfl⟩ := List.exists_cons_of_ne_nil hable
      have hlength : connection.answered.length = executions.length := by
        rw [answered, hreads.length_eq]
      have hsent : (connection.inbound.send (FrameCodec.encode (buildRequestFrame command))).bytes
          = FrameCodec.encode (buildRequestFrame command) := by
        rw [Pipe.send, inbound]
        rfl
      have hbound := length_request_le command
      rw [next, clientTurn]
      dsimp only
      constructor
      · refine ⟨⟨hsound.isOpen, hsound.inbound, hsound.outbound, hsound.jointCount⟩, left, earlier,
          hleft, hreads, .requesting command rfl ?_ outbound answered rest⟩
        dsimp only
        rw [received, hsent]
        rfl
      · rw [work_idle, work_requesting (by exact hlength), List.length_cons, Nat.succ_mul, hsent,
          commandWork]
        dsimp only
        omega
  | requesting command client request outbound =>
      obtain rfl := client
      rcases hable with hdecode | hbytes
      · exact absurd FrameCodec.decode_nil hdecode
      · exact absurd outbound hbytes
  | responding command received last client quiet inbound request jointCount response answered rest =>
      obtain rfl := client
      have hlength : connection.answered.length = executions.length + 1 := by
        rw [answered, List.length_append, hreads.length_eq]
        rfl
      rw [work_responding hlength, next, clientTurn]
      dsimp only
      rcases FrameCodec.decode_part_of_encode (wellFormed_of_request jointCount request) response with
        ⟨hempty, hdecode⟩ | ⟨hnonempty, hdecode⟩
      · -- The response is complete: the call returns.
        rw [hdecode]
        dsimp only
        rw [List.drop_length]
        constructor
        · refine ⟨hsound, later, earlier ++ [last], ?_, ?_, .idle rfl quiet inbound hempty answered rfl⟩
          · rw [hleft, ← rest, finish, List.map_append, List.append_assoc]
            rfl
          · exact List.rel_append hreads (.cons (Reads.of_response jointCount request) .nil)
        · rw [finish, work_idle]
          dsimp only
          omega
      · obtain ⟨chunk, tail, hsplit, hchunk, hreceive⟩ := Pipe.exists_receive hnonempty count
        have hpos := List.length_pos_iff.2 hchunk
        rw [hdecode]
        dsimp only
        rw [hreceive]
        constructor
        · refine ⟨⟨hsound.isOpen, hsound.inbound, hsound.outbound, hsound.jointCount⟩, left, earlier,
            hleft, hreads, .responding command (received ++ chunk) last rfl quiet inbound request
              jointCount ?_ answered rest⟩
          rw [← response, hsplit, List.append_assoc]
        · rw [work_responding (by exact hlength), hsplit, List.length_append]
          dsimp only
          omega

/-! ### Runs -/

/-- The party whose turn an event is. -/
def Event.party : Event → Option Party
  | client _ => some .client
  | server _ => some .server
  | control | watchdog => none

def Event.isOf (party : Party) (event : Event) : Bool := event.party = some party

theorem able_item (session : Session) (item : Item) (party : Party) :
    Able { session with
      connection := { session.connection with server := session.connection.server.next item } } party
      ↔ session.Able party := by
  cases party <;> rfl

theorem Paired.next {commands : List Command} {session : Session} (h : Paired commands session)
    (event : Event) : Paired commands (session.next event) ∧
      Machine.Progresses next work Able Event.isOf session event := by
  -- A turn lowers the work or, when its party is not able, changes nothing.
  have hturn : ∀ party, event.party = some party →
      (session.Able party → Paired commands (session.next event) ∧
        (session.next event).work < session.work) →
      (¬session.Able party → session.next event = session) →
      Paired commands (session.next event) ∧
        Machine.Progresses Session.next work Able Event.isOf session event := by
    intro party hparty hable hblocked
    by_cases hcan : session.Able party
    · obtain ⟨hpaired, hwork⟩ := hable hcan
      exact ⟨hpaired, .inl hwork⟩
    · have hsame := hblocked hcan
      rw [hsame]
      refine ⟨h, .inr ⟨by rw [hsame], fun other hother => ⟨?_, by rw [hsame]; exact hother⟩⟩⟩
      apply decide_eq_false
      intro hof
      obtain rfl := Option.some.inj (hparty.symm.trans hof)
      exact hcan hother
  cases event with
  | client count =>
      exact hturn .client rfl (fun hcan => h.client_turn hcan count)
        fun hcan => next_client_of_not_able h.sound hcan count
  | server count =>
      exact hturn .server rfl (fun hcan => h.server_turn hcan count)
        fun hcan => next_server_of_not_able h.sound hcan count
  | control =>
      exact ⟨h.item .control, .inr ⟨rfl, fun party hcan =>
        ⟨rfl, (able_item session .control party).2 hcan⟩⟩⟩
  | watchdog =>
      exact ⟨h.item .watchdog, .inr ⟨rfl, fun party hcan =>
        ⟨rfl, (able_item session .watchdog party).2 hcan⟩⟩⟩

/-- As long as there is work, one of the parties can do some. -/
theorem Paired.exists_able {commands : List Command} {session : Session} (h : Paired commands session)
    (hwork : 0 < session.work) : ∃ party, session.Able party := by
  obtain ⟨-, left, earlier, -, -, hstage⟩ := h
  obtain ⟨later, _, executions, connection⟩ := session
  cases hstage with
  | idle client received inbound outbound =>
      obtain rfl := client
      refine ⟨.client, ?_⟩
      rintro rfl
      rw [work_idle, inbound, outbound, List.length_nil, Nat.zero_mul] at hwork
      exact Nat.lt_irrefl 0 hwork
  | requesting command client request =>
      refine ⟨.server, ?_⟩
      rcases FrameCodec.decode_part_of_encode (wellFormed_buildRequestFrame command) request with
        ⟨-, hdecode⟩ | ⟨hnonempty, -⟩
      · left
        rw [hdecode]
        exact nofun
      · exact .inr hnonempty
  | responding command received last client quiet inbound request jointCount response =>
      obtain rfl := client
      refine ⟨.client, ?_⟩
      rcases FrameCodec.decode_part_of_encode (wellFormed_of_request jointCount request) response with
        ⟨-, hdecode⟩ | ⟨hnonempty, -⟩
      · left
        rw [hdecode]
        exact nofun
      · exact .inr hnonempty

/-- Nothing is left to do when every command has been executed. -/
theorem Paired.executed {commands : List Command} {session : Session} (h : Paired commands session)
    (hwork : session.work = 0) : session.executions.map (·.command) = commands ∧
      List.Forall₂ Reads session.executions session.connection.answered := by
  obtain ⟨-, left, earlier, hleft, hreads, hstage⟩ := h
  obtain ⟨later, _, executions, connection⟩ := session
  cases hstage with
  | idle client received inbound outbound answered rest =>
      obtain rfl := client
      have hnone : later.length * commandWork = 0 := by
        rw [work_idle] at hwork
        omega
      have hlater : later = [] := by
        rcases Nat.mul_eq_zero.1 hnone with hlength | hzero
        · exact List.eq_nil_of_length_eq_zero hlength
        · exact absurd hzero (by decide)
      refine ⟨?_, ?_⟩
      · rw [hleft, ← rest, hlater, List.append_nil]
      · rw [answered]
        exact hreads
  | requesting command client request outbound answered =>
      obtain rfl := client
      rw [work_requesting (by rw [answered, hreads.length_eq])] at hwork
      omega
  | responding command received last client quiet inbound request jointCount response answered =>
      obtain rfl := client
      rw [work_responding (by rw [answered, List.length_append, hreads.length_eq]; rfl)] at hwork
      omega

theorem requests_of_reads {executions : List Execution} {answered : List Answered}
    (h : List.Forall₂ Reads executions answered) :
    answered.map (·.request) = (executions.map (·.command)).map buildRequestFrame := by
  induction h with
  | nil => rfl
  | cons hfirst _ ih => rw [List.map_cons, List.map_cons, List.map_cons, ih, hfirst.request]

/-- The calls that have returned have read the answers to their requests, in turn. At most one request
more has been dispatched, and it is that of the next command. -/
theorem Paired.reads {commands : List Command} {session : Session} (h : Paired commands session) :
    session.connection.answered.map (·.request) <+: commands.map buildRequestFrame ∧
    session.executions.map (·.command) <+: commands ∧
    ∃ earlier underWay, session.connection.answered = earlier ++ underWay ∧ underWay.length ≤ 1 ∧
      List.Forall₂ Reads session.executions earlier := by
  obtain ⟨-, left, earlier, hleft, hreads, hstage⟩ := h
  have hrequests := requests_of_reads hreads
  have hexecuted : session.executions.map (·.command) <+: commands := ⟨left, hleft.symm⟩
  cases hstage with
  | idle _ _ _ _ answered | requesting _ _ _ _ answered =>
      refine ⟨?_, hexecuted, earlier, [], by rw [answered, List.append_nil], Nat.zero_le _, hreads⟩
      rw [answered, hrequests]
      exact hexecuted.map buildRequestFrame
  | responding command _ last _ _ _ request _ _ answered rest =>
      refine ⟨?_, hexecuted, earlier, [last], answered, Nat.le_refl _, hreads⟩
      refine ⟨session.commands.map buildRequestFrame, ?_⟩
      rw [answered, hleft, ← rest, List.map_append, List.map_append, hrequests, List.append_assoc]
      rw [List.map_cons, List.map_cons, ← request]
      rfl

/-- Both parties have a turn. -/
def bothTurn (events : List Event) : Bool :=
  events.any (Event.isOf .client) && events.any (Event.isOf .server)

/-- Whatever the order of the turns and the sizes of what is received, the server dispatches the requests
of the client in order, each call that returns has read the answer to its own request to the last byte,
and when both parties have had their turns often enough every command has been executed. -/
theorem requests_paired (server : Server) (h : server.robot.jointCount ≤ 65534)
    (commands : List Command) :
    (∀ events : List Event,
      let session := Machine.run next (start server commands) events
      session.connection.answered.map (·.request) <+: commands.map buildRequestFrame ∧
      session.executions.map (·.command) <+: commands ∧
      ∃ earlier underWay, session.connection.answered = earlier ++ underWay ∧ underWay.length ≤ 1 ∧
        List.Forall₂ Reads session.executions earlier) ∧
    ∀ rounds : List (List Event), commands.length * commandWork ≤ rounds.countP bothTurn →
      let session := Machine.run next (start server commands) rounds.flatten
      session.executions.map (·.command) = commands ∧
      List.Forall₂ Reads session.executions session.connection.answered := by
  have hstart := Paired.start server h commands
  have hinv : ∀ session event, Paired commands session → Paired commands (next session event) :=
    fun session event hpaired => (hpaired.next event).1
  refine ⟨fun events => (Machine.run_invariant hinv hstart events).reads, fun rounds hrounds => ?_⟩
  have hfair : ∀ events, bothTurn events → ∀ party, events.any (Event.isOf party) := by
    intro events hboth party
    rw [bothTurn, Bool.and_eq_true] at hboth
    cases party with
    | client => exact hboth.1
    | server => exact hboth.2
  have hwork := Machine.measure_rounds_le hinv (fun session event hpaired => (hpaired.next event).2)
    (fun session hpaired => hpaired.exists_able) hfair hstart rounds
  have hfirst : (start server commands).work = commands.length * commandWork := by
    rw [start, work_idle, Connection.accept]
    simp only [List.length_nil, Nat.add_zero]
  rw [hfirst, Nat.sub_eq_zero_of_le hrounds] at hwork
  exact (Machine.run_invariant hinv hstart rounds.flatten).executed (Nat.le_zero.1 hwork)

/-- Two commands against the scenario of `main`, the parties taking turns. -/
theorem requests_paired_status :
    ((Machine.run next (start (Server.bootScenario 6 rfl) [{ kind := .enable }, { kind := .status }])
      (List.replicate (2 * commandWork) [.client 4096, .server 4096]).flatten).executions.map
        (·.command)) = [{ kind := .enable }, { kind := .status }] :=
  ((requests_paired (Server.bootScenario 6 rfl) (by decide) _).2 _
    (by rw [List.countP_replicate, if_pos (by decide)]; exact Nat.le_refl _)).1

end Session
end RobotEmu
