import MiniCache.ConnectionReads

/-!
# What a connection is sent

The bytes that a client sends are cut into commands, in whatever pieces they come and whatever
the other connections do, and the client is sent the replies to these commands in their order.
What carries the proof is that the task of a connection still has before it all that it has
not executed.
-/

namespace MiniCache

open StreamProgram (Program)

section Peers

variable {served : Connection} {commands : List (List Bytes)} {rest : Bytes} {peer : Peer}

/-- The bytes that a connection has been answered with. -/
def Connection.answer (served : Connection) : Bytes := served.sent.flatMap encode

/-- A task that reads on without a reply was given an empty command. -/
theorem Turn.of_reading {turn : Turn} (isReading : turn.phase = .reading) :
    turn.next = .again ∧ turn.replies = [] := by
  unfold Turn.phase at isReading
  cases next : turn.next with
  | again =>
      rw [next] at isReading
      dsimp only at isReading
      split_ifs at isReading with silent
      exact ⟨rfl, silent⟩
  | closed | syncing | raised =>
      rw [next] at isReading
      cases isReading

theorem Turn.of_sending {turn : Turn} {payload : Bytes} {next : Next}
    (isSending : turn.phase = .sending payload next) :
    payload = turn.replies.flatMap encode ∧ turn.next = next := by
  unfold Turn.phase at isSending
  cases follows : turn.next with
  | again =>
      rw [follows] at isSending
      dsimp only at isSending
      split_ifs at isSending
      cases isSending
      exact ⟨rfl, rfl⟩
  | closed =>
      rw [follows] at isSending
      cases isSending
      exact ⟨rfl, rfl⟩
  | syncing | raised =>
      rw [follows] at isSending
      cases isSending

theorem Turn.phase_admitted (turn : Turn) :
    turn.phase ≠ .waiting ∧ turn.phase ≠ .rejected := by
  unfold Turn.phase
  cases turn.next with
  | again =>
      dsimp only
      split_ifs <;> simp
  | closed | syncing | raised => simp

/-- A connection whose task has executed some commands, of which `served` is left, and has the
rest of the bytes before it. -/
structure Peer.Serves (served : Connection) (commands : List (List Bytes)) (rest : Bytes)
    (peer : Peer) : Prop where
  parsed : ∀ more, readMany readCommand commands.length (peer.received ++ more) =
    .ok (commands.map some, rest ++ more)
  reading : peer.phase = .reading → served.next = .again ∧ peer.authed = served.authed ∧
    peer.Reads rest ∧ peer.sent = served.answer
  sending : ∀ payload next, peer.phase = .sending payload next →
    (peer.sent ++ payload = served.answer ∧ (next = .again →
        served.next = .again ∧ peer.authed = served.authed ∧ peer.Reads rest)) ∨
      (peer.sent = served.answer ∧ next ≠ .again ∧ Breaks peer.ended rest payload)
  sent : ∃ farewell, (farewell = [] ∨ Breaks peer.ended rest farewell) ∧
    peer.sent <+: served.answer ++ farewell

theorem Breaks.append {payload : Bytes} (breaks : Breaks false rest payload) (data : Bytes) :
    Breaks false (rest ++ data) payload := by
  obtain ⟨message, same, refused⟩ := breaks
  refine ⟨message, same, fun more _ => ?_⟩
  rw [List.append_assoc]
  exact refused _ (by simp)

theorem Breaks.ended {ended : Bool} {payload : Bytes} (breaks : Breaks ended rest payload) :
    Breaks true rest payload := by
  obtain ⟨message, same, refused⟩ := breaks
  exact ⟨message, same, fun more nothing => refused more fun _ => nothing rfl⟩

namespace Peer

/-- More bytes come behind the rest. -/
theorem Serves.arrive (serves : peer.Serves served commands rest) (data : Bytes) :
    ∃ rest, (peer.arrive data).Serves served commands rest := by
  unfold Peer.arrive
  by_cases ended : peer.ended = true
  · rw [if_pos ended]
    exact ⟨rest, serves⟩
  · rw [if_neg ended]
    have isOpen : peer.ended = false := Bool.eq_false_iff.mpr ended
    have farther {payload : Bytes} (breaks : Breaks peer.ended rest payload) :
        Breaks peer.ended (rest ++ data) payload := by
      rw [isOpen] at breaks ⊢
      exact breaks.append data
    have reads (before : peer.Reads rest) : Peer.Reads (rest ++ data)
        { peer with buffer := peer.buffer ++ data, received := peer.received ++ data } := by
      intro more
      rw [List.append_assoc, List.append_assoc]
      exact before (data ++ more)
    refine ⟨rest ++ data, ?_, fun isReading => ?_, fun payload next isSending => ?_, ?_⟩
    · intro more
      rw [List.append_assoc, List.append_assoc]
      exact serves.parsed (data ++ more)
    · obtain ⟨again, authed, before, sent⟩ := serves.reading isReading
      exact ⟨again, authed, reads before, sent⟩
    · rcases serves.sending payload next isSending with ⟨sent, goesOn⟩ | ⟨sent, last, breaks⟩
      · refine Or.inl ⟨sent, fun again => ?_⟩
        obtain ⟨open', authed, before⟩ := goesOn again
        exact ⟨open', authed, reads before⟩
      · exact Or.inr ⟨sent, last, farther breaks⟩
    · obtain ⟨farewell, isFarewell, sent⟩ := serves.sent
      exact ⟨farewell, isFarewell.imp id farther, sent⟩

theorem Serves.eof (serves : peer.Serves served commands rest) :
    ({ peer with ended := true } : Peer).Serves served commands rest := by
  refine ⟨serves.parsed, serves.reading, fun payload next isSending => ?_, ?_⟩
  · rcases serves.sending payload next isSending with goesOn | ⟨sent, last, breaks⟩
    · exact Or.inl goesOn
    · exact Or.inr ⟨sent, last, breaks.ended⟩
  · obtain ⟨farewell, isFarewell, sent⟩ := serves.sent
    exact ⟨farewell, isFarewell.imp id Breaks.ended, sent⟩

theorem Serves.finished (serves : peer.Serves served commands rest) :
    ({ peer with phase := .finished } : Peer).Serves served commands rest :=
  ⟨serves.parsed, fun isReading => (by cases isReading), fun _ _ isSending => (by cases isSending),
    serves.sent⟩

/-- The task waits for more. -/
theorem Serves.waits (serves : peer.Serves served commands rest) (isReading : peer.phase = .reading)
    {program : Program UInt8 ReadError (Option (List Bytes))} {left : Bytes}
    (found : peer.read = .waits program left) :
    ({ peer with program := program, buffer := left } : Peer).Serves served commands rest := by
  obtain ⟨again, authed, reads, sent⟩ := serves.reading isReading
  refine ⟨serves.parsed, fun _ => ⟨again, authed, (reads.of_waits found).1, sent⟩, ?_, serves.sent⟩
  intro payload next isSending
  rw [isReading] at isSending
  cases isSending

/-- The task tells of a protocol error and will end. -/
theorem Serves.refused (serves : peer.Serves served commands rest)
    (isReading : peer.phase = .reading) {message : Text} (found : peer.read = .refused message) :
    ({ peer with phase := .sending (encode (protocolErrorReply message)) .closed } : Peer).Serves
      served commands rest := by
  obtain ⟨-, -, reads, sent⟩ := serves.reading isReading
  refine ⟨serves.parsed, fun isOther => (by cases isOther), ?_, serves.sent⟩
  rintro payload next ⟨⟩
  exact Or.inr ⟨sent, by decide, reads.of_refused found⟩

/-- What is owed is sent. -/
theorem Serves.send (serves : peer.Serves served commands rest) {payload : Bytes} {next : Next}
    (isSending : peer.phase = .sending payload next) :
    ({ peer with
        sent := peer.sent ++ payload
        phase := if next = .again then .reading else .finished } : Peer).Serves
      served commands rest := by
  refine ⟨serves.parsed, fun isReading => ?_, fun other after isOther => ?_, ?_⟩
  · have again : next = .again := by
      by_contra last
      rw [if_neg last] at isReading
      cases isReading
    rcases serves.sending payload next isSending with ⟨sent, goesOn⟩ | ⟨-, last, -⟩
    · obtain ⟨isOpen, authed, reads⟩ := goesOn again
      exact ⟨isOpen, authed, reads, sent⟩
    · exact absurd again last
  · dsimp only at isOther
    split_ifs at isOther
  · rcases serves.sending payload next isSending with ⟨sent, -⟩ | ⟨sent, -, breaks⟩
    · exact ⟨[], Or.inl rfl, by rw [List.append_nil, sent]⟩
    · exact ⟨payload, Or.inr breaks, by rw [sent]⟩

/-- A command is executed. -/
theorem Serves.command (serves : peer.Serves served commands rest)
    (isReading : peer.phase = .reading) {command : List Bytes} {left : Bytes}
    (found : peer.read = .command command left) (clock : Clock) (server : Server) :
    let turn := server.handle clock peer.authed command
    ({ peer with
        phase := turn.phase, program := Coroutine.readCommand, buffer := left
        authed := turn.authed } : Peer).Serves
      (served.visit ⟨clock, server, command⟩) (commands ++ [command]) left := by
  intro turn
  obtain ⟨again, authed, reads, sent⟩ := serves.reading isReading
  have visited : served.visit ⟨clock, server, command⟩ =
      ⟨turn.authed, turn.next, served.sent ++ turn.replies⟩ := by
    rw [Connection.visit, if_pos again, ← authed]
  have answered : (served.visit ⟨clock, server, command⟩).answer =
      served.answer ++ turn.replies.flatMap encode := by
    rw [visited, Connection.answer, List.flatMap_append]
    rfl
  refine ⟨fun more => ?_, fun isAgain => ?_, fun payload next isSending => ?_, ?_⟩
  · rw [List.length_append, List.map_append]
    exact readMany_concat (serves.parsed more) (readCommand_more (reads.of_command found) more)
  · obtain ⟨next, silent⟩ := Turn.of_reading isAgain
    rw [answered, visited, silent, sent]
    exact ⟨next, rfl, fun _ => rfl, (List.append_nil _).symm⟩
  · obtain ⟨rfl, next⟩ := Turn.of_sending isSending
    rw [answered, visited, sent]
    refine Or.inl ⟨rfl, fun isAgain => ?_⟩
    exact ⟨next.trans isAgain, rfl, fun _ => rfl⟩
  · refine ⟨[], Or.inl rfl, ?_⟩
    rw [answered, sent, List.append_nil]
    exact List.prefix_append _ _

end Peer

end Peers

section Server

variable {clock : Clock} {server : Server}

/-- What a turn never changes of the server. -/
structure SameGate (server other : Server) : Prop where
  requirepass : other.requirepass = server.requirepass
  maxclients : other.maxclients = server.maxclients
  clientCount : other.clientCount = server.clientCount
  connectionsReceived : other.connectionsReceived = server.connectionsReceived
  rejectedConnections : other.rejectedConnections = server.rejectedConnections

theorem SameGate.refl (server : Server) : SameGate server server := ⟨rfl, rfl, rfl, rfl, rfl⟩

theorem sameGate_execute (clock : Clock) (server : Server) (authed : Bool) (name : Text)
    (command : List Arg) : SameGate server (server.execute clock authed name command).server := by
  unfold Server.execute
  split
  · exact ⟨rfl, rfl, rfl, rfl, rfl⟩
  · split_ifs
    · dsimp only
      split <;> exact ⟨rfl, rfl, rfl, rfl, rfl⟩
    · exact ⟨rfl, rfl, rfl, rfl, rfl⟩

theorem sameGate_startRewrite (server : Server) : SameGate server server.startRewrite.2 := by
  unfold Server.startRewrite
  split
  · exact .refl server
  · split_ifs <;> exact ⟨rfl, rfl, rfl, rfl, rfl⟩

theorem sameGate_handle (clock : Clock) (server : Server) (authed : Bool)
    (command : List Bytes) : SameGate server (server.handle clock authed command).server := by
  cases command with
  | nil => exact .refl server
  | cons head args =>
      let counted : Server :=
        { server with commandsProcessed := server.commandsProcessed + 1 }
      have onward {other : Server} (same : SameGate counted other) : SameGate server other :=
        ⟨same.requirepass, same.maxclients, same.clientCount, same.connectionsReceived,
          same.rejectedConnections⟩
      unfold Server.handle
      dsimp only
      split_ifs
      all_goals first
        | exact ⟨rfl, rfl, rfl, rfl, rfl⟩
        | exact onward (sameGate_execute ..)
        | exact onward (sameGate_startRewrite _)

end Server

section Networks

variable {ι : Type} [DecidableEq ι] {network next : Network ι} {accepting : Server} {who : ι}
  {clock : Clock}

/-- The reply to a connection over the limit. -/
def refusal : Bytes := encode (errorReply "ERR max number of clients reached")

/-- How a connection stands whose commands have been executed. -/
inductive Peer.Standing (accepted : Connection) (visits : List Visit) (peer : Peer) : Prop
  | waiting (isWaiting : peer.phase = .waiting) (nothing : visits = [])
      (program : peer.program = Coroutine.readCommand) (buffer : peer.buffer = peer.received)
      (sent : peer.sent = [])
  | rejected (isRejected : peer.phase = .rejected) (nothing : visits = [])
      (sent : peer.sent = refusal)
  | served (rest : Bytes) (taken : peer.phase ≠ .waiting) (admitted : peer.phase ≠ .rejected)
      (serves : peer.Serves (accepted.serve visits) (visits.map Visit.command) rest)

/-- Every connection stands as its commands make it. -/
structure Network.Streams (accepting : Server) (network : Network ι) : Prop where
  password : network.server.requirepass = accepting.requirepass
  standing : ∀ who,
    (network.peers who).Standing (.accept accepting) (network.visitsOf who)

namespace Network

@[simp] theorem place_visitsOf (other who : ι) (peer : Peer) (network : Network ι) :
    (network.place who peer).visitsOf other = network.visitsOf other := rfl

@[simp] theorem place_requirepass (who : ι) (peer : Peer) (network : Network ι) :
    (network.place who peer).server.requirepass = network.server.requirepass := by
  unfold place
  dsimp only
  split_ifs <;> rfl

theorem visitsOf_append {visit : Visit} (visits : next.visits = network.visits ++ [(who, visit)])
    (other : ι) : next.visitsOf other =
      network.visitsOf other ++ if who = other then [visit] else [] := by
  unfold visitsOf
  rw [visits, List.filter_append, List.map_append]
  by_cases same : who = other <;> simp [same]

/-- One connection has moved. -/
theorem Streams.update {peer : Peer} (streams : network.Streams accepting)
    (password : next.server.requirepass = network.server.requirepass)
    (peers : next.peers = Function.update network.peers who peer)
    (others : ∀ other, other ≠ who → next.visitsOf other = network.visitsOf other)
    (here : peer.Standing (.accept accepting) (next.visitsOf who)) : next.Streams accepting := by
  refine ⟨password.trans streams.password, fun other => ?_⟩
  rw [peers]
  by_cases same : other = who
  · subst same
    rwa [Function.update_self]
  · rw [Function.update_of_ne same, others other same]
    exact streams.standing other

theorem Streams.connect (streams : network.Streams accepting) :
    (network.connect who).Streams accepting := by
  unfold Network.connect
  dsimp only
  have standing := streams.standing who
  split_ifs with isWaiting full
  · refine streams.update rfl rfl (fun _ _ => rfl) ?_
    cases standing with
    | waiting _ nothing => exact .rejected rfl nothing rfl
    | rejected isRejected => rw [isWaiting] at isRejected; cases isRejected
    | served _ taken => exact absurd isWaiting taken
  · refine streams.update rfl rfl (fun _ _ => rfl) ?_
    cases standing with
    | rejected isRejected => rw [isWaiting] at isRejected; cases isRejected
    | served _ taken => exact absurd isWaiting taken
    | waiting _ nothing program buffer sent =>
        have visits : ({ network with
            server :=
              { network.server with
                connectionsReceived := network.server.connectionsReceived + 1
                clientCount := network.server.clientCount + 1 }
            peers := Function.update network.peers who
              { network.peers who with
                phase := .reading, authed := network.server.requirepass.isNone } } :
            Network ι).visitsOf who = [] := nothing
        rw [visits]
        refine .served (network.peers who).received (fun impossible => by cases impossible)
          (fun impossible => by cases impossible) ⟨fun _ => rfl, fun _ => ?_, ?_, ?_⟩
        · refine ⟨rfl, ?_, fun more => ?_, sent⟩
          · rw [streams.password]
            rfl
          · rw [program, buffer]
        · rintro payload next ⟨⟩
        · exact ⟨[], Or.inl rfl, by rw [sent]; exact List.nil_prefix⟩
  · exact streams

/-- The standing of a connection that has been admitted. -/
theorem Streams.serves (streams : network.Streams accepting) (who : ι)
    (taken : (network.peers who).phase ≠ .waiting)
    (admitted : (network.peers who).phase ≠ .rejected) :
    ∃ rest, (network.peers who).Serves ((Connection.accept accepting).serve (network.visitsOf who))
      ((network.visitsOf who).map Visit.command) rest := by
  cases streams.standing who with
  | waiting isWaiting => exact absurd isWaiting taken
  | rejected isRejected => exact absurd isRejected admitted
  | served rest _ _ serves => exact ⟨rest, serves⟩

/-- An admitted connection has moved. -/
theorem Streams.place {peer : Peer} {rest : Bytes} (streams : network.Streams accepting)
    (taken : peer.phase ≠ .waiting) (admitted : peer.phase ≠ .rejected)
    (serves : peer.Serves ((Connection.accept accepting).serve (network.visitsOf who))
      ((network.visitsOf who).map Visit.command) rest) :
    (network.place who peer).Streams accepting :=
  streams.update (place_requirepass who peer network) rfl (fun _ _ => rfl)
    (.served rest taken admitted serves)

theorem Streams.turn (streams : network.Streams accepting) :
    (network.turn clock who).Streams accepting := by
  unfold Network.turn
  dsimp only
  split_ifs with isReading
  swap
  · exact streams
  have taken : (network.peers who).phase ≠ .waiting := by
    rw [isReading]
    decide
  have admitted : (network.peers who).phase ≠ .rejected := by
    rw [isReading]
    decide
  obtain ⟨rest, serves⟩ := streams.serves who taken admitted
  rcases found : (network.peers who).read with ⟨command, left⟩ | ⟨program, left⟩ | _ | message
  · let visit : Visit := ⟨clock, network.server, command⟩
    have password := (sameGate_handle clock network.server (network.peers who).authed
      command).requirepass
    have moved := serves.command isReading found clock network.server
    let served : Network ι :=
      { network with
        server := (network.server.handle clock (network.peers who).authed command).server
        visits := network.visits ++ [(who, visit)] }
    have here : served.visitsOf who = network.visitsOf who ++ [visit] := by
      rw [visitsOf_append rfl, if_pos rfl]
    refine streams.update ((place_requirepass ..).trans password) rfl (fun other different => ?_) ?_
    · rw [place_visitsOf, visitsOf_append rfl, if_neg (Ne.symm different), List.append_nil]
    · rw [place_visitsOf]
      change Peer.Standing _ (served.visitsOf who) _
      rw [here]
      have phase := Turn.phase_admitted
        (network.server.handle clock (network.peers who).authed command)
      refine .served left phase.1 phase.2 ?_
      rw [Connection.serve_append, List.map_append]
      exact moved
  · exact streams.place taken admitted (serves.waits isReading found)
  · exact streams.place (fun impossible => by cases impossible)
      (fun impossible => by cases impossible) serves.finished
  · exact streams.place (fun impossible => by cases impossible)
      (fun impossible => by cases impossible) (serves.refused isReading found)

theorem Streams.send (streams : network.Streams accepting) :
    (network.send who).Streams accepting := by
  unfold Network.send
  dsimp only
  cases isSending : (network.peers who).phase with
  | sending payload next =>
      obtain ⟨rest, serves⟩ :=
        streams.serves who (by rw [isSending]; simp) (by rw [isSending]; simp)
      refine streams.place ?_ ?_ (serves.send isSending)
      · dsimp only
        split_ifs <;> decide
      · dsimp only
        split_ifs <;> decide
  | waiting | rejected | reading | replica | finished => exact streams

theorem Streams.drop (streams : network.Streams accepting) :
    (network.drop who).Streams accepting := by
  unfold Network.drop
  dsimp only
  split_ifs with active
  · have taken : (network.peers who).phase ≠ .waiting := by
      intro isWaiting
      rw [isWaiting] at active
      exact active
    have admitted : (network.peers who).phase ≠ .rejected := by
      intro isRejected
      rw [isRejected] at active
      exact active
    obtain ⟨rest, serves⟩ := streams.serves who taken admitted
    exact streams.place (fun impossible => by cases impossible)
      (fun impossible => by cases impossible) serves.finished
  · exact streams

theorem Streams.step (streams : network.Streams accepting) (event : NetworkEvent ι) :
    (network.step clock event).Streams accepting := by
  cases event with
  | connect who => exact streams.connect
  | turn who => exact streams.turn
  | send who => exact streams.send
  | drop who => exact streams.drop
  | sweep => exact ⟨streams.password, streams.standing⟩
  | arrive who data =>
      refine streams.update rfl rfl (fun _ _ => rfl) ?_
      have phase : ((network.peers who).arrive data).phase = (network.peers who).phase := by
        unfold Peer.arrive
        split_ifs <;> rfl
      cases streams.standing who with
      | waiting isWaiting nothing program buffer sent =>
          refine .waiting (phase.trans isWaiting) nothing ?_ ?_ ?_
          all_goals unfold Peer.arrive; split_ifs
          all_goals first | assumption | exact congrArg (· ++ data) buffer
      | rejected isRejected nothing sent =>
          refine .rejected (phase.trans isRejected) nothing ?_
          unfold Peer.arrive
          split_ifs <;> exact sent
      | served rest taken admitted serves =>
          obtain ⟨rest, serves⟩ := serves.arrive data
          exact .served rest (by rwa [phase]) (by rwa [phase]) serves
  | eof who =>
      refine streams.update rfl rfl (fun _ _ => rfl) ?_
      cases streams.standing who with
      | waiting isWaiting nothing program buffer sent =>
          exact .waiting isWaiting nothing program buffer sent
      | rejected isRejected nothing sent => exact .rejected isRejected nothing sent
      | served rest taken admitted serves => exact .served rest taken admitted serves.eof

theorem streams_run (server : Server) (events : List (Clock × NetworkEvent ι)) :
    ((Network.start server).run events).Streams server := by
  have start : (Network.start server : Network ι).Streams server :=
    ⟨rfl, fun _ => .waiting rfl rfl rfl rfl rfl⟩
  generalize (Network.start server : Network ι) = network at start
  induction events generalizing network with
  | nil => exact start
  | cons event events ih => exact ih _ (start.step event.2)

end Network

/-- In every run of the server with any number of connections, a connection that was admitted
has executed the commands that its bytes spell, one after the other and each once, in whatever
pieces the bytes came; it was sent the replies to these commands in their order, behind which
only the reply to bytes that break the protocol may stand.  While its task reads, all replies
have been sent, and when the task can only wait, no whole command is left. -/
theorem streams_served_in_order (server : Server) (events : List (Clock × NetworkEvent ι))
    (who : ι) :
    let network := (Network.start server).run events
    let peer := network.peers who
    let visits := network.visitsOf who
    let served := (Connection.accept server).serve visits
    peer.phase ≠ .waiting → peer.phase ≠ .rejected →
      ∃ rest,
        readMany readCommand visits.length peer.received =
            .ok (visits.map fun visit => some visit.command, rest) ∧
          (peer.phase = .reading → peer.sent = served.answer ∧
            ∀ program left, peer.read = .waits program left →
              ∀ command unread, readCommand rest ≠ .ok (some command, unread)) ∧
          ∃ farewell, (farewell = [] ∨ Breaks peer.ended rest farewell) ∧
            peer.sent <+: served.answer ++ farewell := by
  intro network peer visits served taken admitted
  have streams : network.Streams server := Network.streams_run server events
  obtain ⟨rest, serves⟩ := streams.serves who taken admitted
  refine ⟨rest, ?_, fun isReading => ?_, serves.sent⟩
  · have parsed := serves.parsed []
    rwa [List.append_nil, List.append_nil, List.length_map, List.map_map] at parsed
  · obtain ⟨-, -, reads, sent⟩ := serves.reading isReading
    exact ⟨sent, fun program left found => (reads.of_waits found).2⟩

def bytesOf (text : String) : Bytes := encodeUtf8 text.toList

/-- Two clients: the bytes of one come in pieces that do not end where its commands do, and
those of the other break the protocol. -/
def splitEvents : List (Clock × NetworkEvent Bool) :=
  [(.afterEpoch 0, .connect true), (.afterEpoch 0, .connect false),
    (.afterEpoch 1, .arrive true (bytesOf "INCR k\r\n*2\r\n$3\r\nG")),
    (.afterEpoch 1, .arrive false (bytesOf "GET k\r\n*x\r\n")),
    (.afterEpoch 2, .turn true), (.afterEpoch 2, .turn false), (.afterEpoch 3, .send true),
    (.afterEpoch 3, .turn true), (.afterEpoch 4, .send false), (.afterEpoch 4, .turn false),
    (.afterEpoch 5, .arrive true (bytesOf "ET\r\n$1\r\nk\r\n")), (.afterEpoch 5, .turn true),
    (.afterEpoch 6, .send true), (.afterEpoch 6, .send false)]

def bareServer : Server := Server.init 0 .noeviction none none

/-- The network after these events. -/
def splitNetwork : Network Bool := (Network.start bareServer).run splitEvents

theorem streams_served_in_order_split :
    (splitNetwork.visitsOf true).length = 2 ∧ ∃ rest,
      readMany readCommand (splitNetwork.visitsOf true).length (splitNetwork.peers true).received =
          .ok ((splitNetwork.visitsOf true).map fun visit => some visit.command, rest) ∧
        (splitNetwork.peers true).sent =
          ((Connection.accept bareServer).serve (splitNetwork.visitsOf true)).answer := by
  have isReading : (splitNetwork.peers true).phase = .reading := by decide +kernel
  obtain ⟨rest, read, reading, -⟩ :=
    streams_served_in_order bareServer splitEvents true
      (fun isWaiting => Stage.noConfusion (isReading.symm.trans isWaiting))
      (fun isRejected => Stage.noConfusion (isReading.symm.trans isRejected))
  exact ⟨by decide +kernel, rest, read, (reading isReading).1⟩

end Networks

end MiniCache
