import MiniCache.ConnectionStreams

/-!
# How many connections there are

The counters of the server against the connections themselves: whatever the order in which
connections come, fail, time out and end, the count of clients is the number of connections
that are being served, and it keeps to the limit.
-/

namespace MiniCache

theorem Server.execute_commandsProcessed (clock : Clock) (server : Server) (authed : Bool)
    (name : Text) (command : List Arg) :
    (server.execute clock authed name command).server.commandsProcessed =
      server.commandsProcessed := by
  unfold Server.execute
  split
  · rfl
  · split_ifs
    · dsimp only
      split <;> rfl
    · rfl

theorem Server.startRewrite_commandsProcessed (server : Server) :
    server.startRewrite.2.commandsProcessed = server.commandsProcessed := by
  unfold Server.startRewrite
  split
  · rfl
  · split_ifs <;> rfl

/-- A turn counts its command, unless it is empty. -/
theorem Server.handle_commandsProcessed (clock : Clock) (server : Server) (authed : Bool)
    (command : List Bytes) :
    (server.handle clock authed command).server.commandsProcessed =
      server.commandsProcessed + if command = [] then 0 else 1 := by
  cases command with
  | nil => rfl
  | cons head args =>
      unfold Server.handle
      dsimp only
      rw [if_neg (List.cons_ne_nil head args)]
      split_ifs
      all_goals first
        | rfl
        | exact Server.execute_commandsProcessed ..
        | exact Server.startRewrite_commandsProcessed _

section Censuses

variable {ι α : Type} {holds : α → Prop} {states : ι → α} {members : Finset ι} {who : ι}
  {state : α}

/-- The members are those whose state is such. -/
def Census (holds : α → Prop) (states : ι → α) (members : Finset ι) : Prop :=
  ∀ who, who ∈ members ↔ holds (states who)

variable [DecidableEq ι]

theorem Census.stay (census : Census holds states members)
    (same : holds state ↔ holds (states who)) :
    Census holds (Function.update states who state) members := by
  intro other
  by_cases here : other = who
  · subst here
    rw [Function.update_self, same]
    exact census other
  · rw [Function.update_of_ne here]
    exact census other

theorem Census.enter (census : Census holds states members) (comes : holds state) :
    Census holds (Function.update states who state) (insert who members) := by
  intro other
  rw [Finset.mem_insert]
  by_cases here : other = who
  · subst here
    rw [Function.update_self]
    exact iff_of_true (Or.inl rfl) comes
  · rw [Function.update_of_ne here, or_iff_right here]
    exact census other

theorem Census.leave (census : Census holds states members) (goes : ¬ holds state) :
    Census holds (Function.update states who state) (members.erase who) := by
  intro other
  rw [Finset.mem_erase]
  by_cases here : other = who
  · subst here
    rw [Function.update_self]
    exact iff_of_false (fun member => member.1 rfl) goes
  · rw [Function.update_of_ne here, and_iff_right here]
    exact census other

end Censuses

namespace Peer

/-- The loop has taken the connection. -/
def Taken (peer : Peer) : Prop := peer.phase ≠ .waiting

/-- The connection was over the limit. -/
def Rejected (peer : Peer) : Prop := peer.phase = .rejected

/-- The connection is being served. -/
def Served (peer : Peer) : Prop := peer.phase.Active

variable {peer : Peer}

theorem Served.taken (served : peer.Served) : peer.Taken := by
  intro isWaiting
  rw [Served, isWaiting] at served
  exact served

theorem Served.admitted (served : peer.Served) : ¬ peer.Rejected := by
  intro isRejected
  rw [Served, isRejected] at served
  exact served

end Peer

theorem Turn.phase_active (turn : Turn) : turn.phase.Active ∨ turn.phase = .finished := by
  unfold Turn.phase
  cases turn.next with
  | again =>
      dsimp only
      split_ifs <;> exact Or.inl trivial
  | closed | syncing => exact Or.inl trivial
  | raised raised => exact Or.inr rfl

section Networks

variable {ι : Type} {network next : Network ι} {first : Server} {who : ι} {clock : Clock}
  {taken served rejected : Finset ι}

/-- The commands that were executed, the empty ones apart. -/
def Network.processed (network : Network ι) : ℕ :=
  (network.visits.filter fun visit => visit.2.command ≠ []).length

/-- The counters since `first` count the connections taken by the loop, those that are served
and those that were rejected, and the commands. -/
structure Network.Counted (first : Server) (network : Network ι)
    (taken served rejected : Finset ι) : Prop where
  areTaken : Census Peer.Taken network.peers taken
  areServed : Census Peer.Served network.peers served
  areRejected : Census Peer.Rejected network.peers rejected
  maxclients : network.server.maxclients = first.maxclients
  clientCount : network.server.clientCount = served.card
  limit : first.maxclients = 0 ∨ served.card ≤ first.maxclients
  received : network.server.connectionsReceived = first.connectionsReceived + taken.card
  rejections : network.server.rejectedConnections = first.rejectedConnections + rejected.card
  commands : network.server.commandsProcessed = first.commandsProcessed + network.processed

namespace Network

/-- Commands are executed, and nobody has moved. -/
theorem Counted.serve (counted : network.Counted first taken served rejected)
    (gate : SameGate network.server next.server) (peers : next.peers = network.peers)
    (commands : next.server.commandsProcessed + network.processed =
      network.server.commandsProcessed + next.processed) :
    next.Counted first taken served rejected where
  areTaken := by rw [peers]; exact counted.areTaken
  areServed := by rw [peers]; exact counted.areServed
  areRejected := by rw [peers]; exact counted.areRejected
  maxclients := gate.maxclients.trans counted.maxclients
  clientCount := gate.clientCount.trans counted.clientCount
  limit := counted.limit
  received := gate.connectionsReceived.trans counted.received
  rejections := gate.rejectedConnections.trans counted.rejections
  commands := by
    have before := counted.commands
    omega

variable [DecidableEq ι]

/-- Something comes of a connection that does not move it. -/
theorem Counted.update {peer : Peer} (counted : network.Counted first taken served rejected)
    (phase : peer.phase = (network.peers who).phase) :
    ({ network with peers := Function.update network.peers who peer } : Network ι).Counted
      first taken served rejected :=
  { counted with
    areTaken := counted.areTaken.stay (by rw [Peer.Taken, Peer.Taken, phase])
    areServed := counted.areServed.stay (by rw [Peer.Served, Peer.Served, phase])
    areRejected := counted.areRejected.stay (by rw [Peer.Rejected, Peer.Rejected, phase]) }

/-- A task goes on, or it ends and is counted out. -/
theorem Counted.place {peer : Peer} (counted : network.Counted first taken served rejected)
    (before : (network.peers who).Served) (after : peer.Served ∨ peer.phase = .finished) :
    ∃ served, (network.place who peer).Counted first taken served rejected := by
  have member : who ∈ served := (counted.areServed who).mpr before
  have isTaken : peer.Taken := after.elim Peer.Served.taken fun isOver => by
    rw [Peer.Taken, isOver]
    decide
  have admitted : ¬ peer.Rejected := after.elim Peer.Served.admitted fun isOver => by
    rw [Peer.Rejected, isOver]
    decide
  have areTaken : Census Peer.Taken (network.place who peer).peers taken :=
    counted.areTaken.stay (iff_of_true isTaken before.taken)
  have areRejected : Census Peer.Rejected (network.place who peer).peers rejected :=
    counted.areRejected.stay (iff_of_false admitted before.admitted)
  by_cases isOver : peer.phase = .finished
  · have moved : (network.place who peer).server =
        { network.server with clientCount := network.server.clientCount - 1 } := if_pos isOver
    have gone : ¬ peer.Served := by
      rw [Peer.Served, isOver]
      exact id
    refine ⟨served.erase who, areTaken, counted.areServed.leave gone, areRejected, ?_, ?_,
      counted.limit.imp id (Finset.card_erase_le.trans ·), ?_, ?_, ?_⟩
    all_goals rw [moved]
    · exact counted.maxclients
    · rw [Finset.card_erase_of_mem member]
      exact congrArg (· - 1) counted.clientCount
    · exact counted.received
    · exact counted.rejections
    · exact counted.commands
  · have moved : (network.place who peer).server = network.server := if_neg isOver
    have stays : peer.Served := after.resolve_right isOver
    refine ⟨served, areTaken, counted.areServed.stay (iff_of_true stays before), areRejected,
      ?_, ?_, counted.limit, ?_, ?_, ?_⟩
    all_goals rw [moved]
    · exact counted.maxclients
    · exact counted.clientCount
    · exact counted.received
    · exact counted.rejections
    · exact counted.commands

theorem Counted.connect (counted : network.Counted first taken served rejected) :
    ∃ taken served rejected, (network.connect who).Counted first taken served rejected := by
  unfold Network.connect
  dsimp only
  split_ifs with isWaiting full
  · have untaken : who ∉ taken := fun member => (counted.areTaken who).mp member isWaiting
    have unserved : ¬ (network.peers who).Served := fun served => served.taken isWaiting
    have unrejected : who ∉ rejected := by
      intro member
      have isRejected := (counted.areRejected who).mp member
      rw [Peer.Rejected, isWaiting] at isRejected
      cases isRejected
    refine ⟨insert who taken, served, insert who rejected, ?_⟩
    refine ⟨counted.areTaken.enter (fun impossible => by cases impossible),
      counted.areServed.stay (iff_of_false id unserved), counted.areRejected.enter rfl,
      counted.maxclients, counted.clientCount, counted.limit, ?_, ?_, counted.commands⟩
    · rw [Finset.card_insert_of_notMem untaken, ← Nat.add_assoc, ← counted.received]
    · rw [Finset.card_insert_of_notMem unrejected, ← Nat.add_assoc, ← counted.rejections]
  · have untaken : who ∉ taken := fun member => (counted.areTaken who).mp member isWaiting
    have unserved : who ∉ served := fun member =>
      ((counted.areServed who).mp member).taken isWaiting
    have unrejected : ¬ (network.peers who).Rejected := by
      intro isRejected
      rw [Peer.Rejected, isWaiting] at isRejected
      cases isRejected
    refine ⟨insert who taken, insert who served, rejected, ?_⟩
    refine ⟨counted.areTaken.enter (fun impossible => by cases impossible),
      counted.areServed.enter trivial,
      counted.areRejected.stay (iff_of_false (fun impossible => by cases impossible) unrejected),
      counted.maxclients, ?_, ?_, ?_, counted.rejections, counted.commands⟩
    · rw [Finset.card_insert_of_notMem unserved]
      exact congrArg (· + 1) counted.clientCount
    · rw [Finset.card_insert_of_notMem unserved, ← counted.clientCount, ← counted.maxclients]
      omega
    · rw [Finset.card_insert_of_notMem untaken, ← Nat.add_assoc, ← counted.received]
  · exact ⟨taken, served, rejected, counted⟩

/-- A connection that comes is rejected just when the server has no room. -/
theorem Counted.rejects_iff (counted : network.Counted first taken served rejected)
    (isWaiting : (network.peers who).phase = .waiting) :
    ((network.connect who).peers who).Rejected ↔
      first.maxclients ≠ 0 ∧ served.card = first.maxclients := by
  have room := counted.limit
  unfold Network.connect
  dsimp only
  rw [if_pos isWaiting, counted.maxclients, counted.clientCount]
  split_ifs with full
  · dsimp only
    rw [Function.update_self]
    exact iff_of_true rfl ⟨full.1, by omega⟩
  · dsimp only
    rw [Function.update_self]
    refine iff_of_false (fun impossible => by cases impossible) fun ⟨limited, reached⟩ => ?_
    exact full ⟨limited, reached.ge⟩

theorem Counted.turn (counted : network.Counted first taken served rejected) :
    ∃ served, (network.turn clock who).Counted first taken served rejected := by
  unfold Network.turn
  dsimp only
  split_ifs with isReading
  swap
  · exact ⟨served, counted⟩
  have before : (network.peers who).Served := by
    rw [Peer.Served, isReading]
    trivial
  rcases (network.peers who).read with ⟨command, left⟩ | ⟨program, left⟩ | _ | message
  · let visited : Network ι :=
      { network with
        server := (network.server.handle clock (network.peers who).authed command).server
        visits := network.visits ++ [(who, ⟨clock, network.server, command⟩)] }
    have executed : visited.Counted first taken served rejected := by
      refine counted.serve (sameGate_handle ..) rfl ?_
      rw [show visited.server = _ from rfl, Server.handle_commandsProcessed, processed, processed,
        List.filter_append, List.length_append]
      by_cases empty : command = []
      · simp [empty]
      · simp [empty]
        omega
    exact executed.place before (Turn.phase_active _)
  · exact counted.place before (Or.inl before)
  · exact counted.place before (Or.inr rfl)
  · exact counted.place before (Or.inl trivial)

theorem Counted.send (counted : network.Counted first taken served rejected) :
    ∃ served, (network.send who).Counted first taken served rejected := by
  unfold Network.send
  dsimp only
  cases isSending : (network.peers who).phase with
  | sending payload next =>
      have before : (network.peers who).Served := by
        rw [Peer.Served, isSending]
        trivial
      refine counted.place before ?_
      by_cases again : next = .again
      · rw [if_pos again]
        exact Or.inl trivial
      · rw [if_neg again]
        exact Or.inr rfl
  | waiting | rejected | reading | replica | finished => exact ⟨served, counted⟩

theorem Counted.drop (counted : network.Counted first taken served rejected) :
    ∃ served, (network.drop who).Counted first taken served rejected := by
  unfold Network.drop
  dsimp only
  split_ifs with active
  · exact counted.place active (Or.inr rfl)
  · exact ⟨served, counted⟩

theorem Counted.step (counted : network.Counted first taken served rejected)
    (event : NetworkEvent ι) :
    ∃ taken served rejected, (network.step clock event).Counted first taken served rejected := by
  cases event with
  | connect who => exact counted.connect
  | turn who => exact ⟨taken, counted.turn.imp fun _ counted => ⟨rejected, counted⟩⟩
  | send who => exact ⟨taken, counted.send.imp fun _ counted => ⟨rejected, counted⟩⟩
  | drop who => exact ⟨taken, counted.drop.imp fun _ counted => ⟨rejected, counted⟩⟩
  | sweep => exact ⟨taken, served, rejected, counted.serve ⟨rfl, rfl, rfl, rfl, rfl⟩ rfl rfl⟩
  | arrive who data =>
      refine ⟨taken, served, rejected, counted.update ?_⟩
      unfold Peer.arrive
      split_ifs <;> rfl
  | eof who => exact ⟨taken, served, rejected, counted.update rfl⟩

theorem counted_run (server : Server) (nobody : server.clientCount = 0)
    (events : List (Clock × NetworkEvent ι)) :
    ∃ taken served rejected,
      ((Network.start server).run events).Counted server taken served rejected := by
  have start : (Network.start server : Network ι).Counted server ∅ ∅ ∅ :=
    ⟨fun _ => iff_of_false (Finset.notMem_empty _) fun taken => taken rfl,
      fun _ => iff_of_false (Finset.notMem_empty _) id,
      fun _ => iff_of_false (Finset.notMem_empty _) fun impossible => (by cases impossible),
      rfl, nobody, Or.inr (Nat.zero_le _), rfl, rfl, rfl⟩
  suffices counted : ∀ (network : Network ι), (∃ taken served rejected,
      network.Counted server taken served rejected) →
      ∃ taken served rejected, (network.run events).Counted server taken served rejected from
    counted _ ⟨∅, ∅, ∅, start⟩
  induction events with
  | nil => exact fun _ counted => counted
  | cons event events ih =>
      rintro network ⟨taken, served, rejected, counted⟩
      exact ih _ (counted.step event.2)

end Network

/-- In every run of the server from its start, whatever the order in which connections come,
are served, fail, time out and end, the counters agree with the connections: the clients are
those that are being served, and never more than the limit; every connection that was taken is
counted, every one that was rejected too, and every command that was executed.  A rejected
connection has executed nothing and was sent the refusal only, and the next one is rejected
just when the limit is reached. -/
theorem connections_counted [DecidableEq ι] (server : Server)
    (nobody : server.clientCount = 0) (events : List (Clock × NetworkEvent ι)) :
    let network := (Network.start server).run events
    ∃ taken served rejected,
      network.Counted server taken served rejected ∧
        (∀ who ∈ rejected, network.visitsOf who = [] ∧ (network.peers who).sent = refusal) ∧
        ∀ clock who, (network.peers who).phase = .waiting →
          (((network.step clock (.connect who)).peers who).Rejected ↔
            server.maxclients ≠ 0 ∧ served.card = server.maxclients) := by
  intro network
  have streams : network.Streams server := Network.streams_run server events
  obtain ⟨taken, served, rejected, counted⟩ := Network.counted_run server nobody events
  refine ⟨taken, served, rejected, counted, fun who member => ?_, fun _ _ => counted.rejects_iff⟩
  have isRejected := (counted.areRejected who).mp member
  cases streams.standing who with
  | rejected _ nothing sent => exact ⟨nothing, sent⟩
  | waiting isWaiting => exact Stage.noConfusion (isWaiting.symm.trans isRejected)
  | served _ _ admitted => exact absurd isRejected admitted

/-- A server with one seat. -/
def oneSeat : Server := { bareServer with maxclients := 1 }

/-- The second of two connections is rejected; when the first has ended a third is taken. -/
def seatEvents : List (Clock × NetworkEvent (Fin 3)) :=
  [(.afterEpoch 0, .connect 0), (.afterEpoch 0, .connect 1),
    (.afterEpoch 1, .arrive 0 (bytesOf "QUIT\r\n")), (.afterEpoch 1, .turn 0),
    (.afterEpoch 2, .send 0), (.afterEpoch 3, .connect 2)]

theorem connections_counted_oneSeat :
    let network := (Network.start oneSeat).run seatEvents
    (∃ taken served rejected, network.Counted oneSeat taken served rejected) ∧
      network.server.clientCount = 1 ∧ network.server.connectionsReceived = 3 ∧
      network.server.rejectedConnections = 1 ∧ network.server.commandsProcessed = 1 := by
  refine ⟨?_, by decide +kernel, by decide +kernel, by decide +kernel, by decide +kernel⟩
  obtain ⟨taken, served, rejected, counted, -⟩ := connections_counted oneSeat rfl seatEvents
  exact ⟨taken, served, rejected, counted⟩

end Networks

end MiniCache
