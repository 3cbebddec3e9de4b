import MiniCache.ClusterCalls
import MiniCache.CommandLocality

/-!
# Asking a shard

On an idle link to a primary without a memory limit a command of the table is answered with
what `dispatch` returns, as long as the reply is within the limits of a reader, and the link
is idle again.
-/

namespace MiniCache

section Execute

variable {clock : Clock} {server : Server} {authed : Bool} {name : Text} {command : List Arg}
  {reply : Value} {left : Store}

/-- The turn of a command that returns a reply and evicts nothing. -/
theorem Server.execute_ok (dispatched : dispatch clock server.store command = (.ok reply, left))
    (drained : left.evicted = []) :
    let turn := server.execute clock authed name command
    turn.server.store = left ∧ turn.server.replicaOf = server.replicaOf ∧
      turn.authed = authed ∧ turn.replies = [reply] ∧ turn.next = .again := by
  simp only [Server.execute, dispatched]
  by_cases writes : reply.isError = false ∧ isWriteCommand name = true
  · have accepted : Accepted (dispatch clock server.store command).1 := by
      rw [dispatched]
      exact writes.1
    obtain ⟨records, recorded⟩ := toAofCommands_of_accepted accepted clock.time
    rw [if_pos writes, Server.records_ok _ recorded]
    exact ⟨drain_of_nil drained, rfl, rfl, rfl, rfl⟩
  · rw [if_neg writes]
    exact ⟨rfl, rfl, rfl, rfl, rfl⟩

/-- A command that raises ends the connection. -/
theorem Server.execute_raised {raised : Raised}
    (dispatched : dispatch clock server.store command = (.error raised, left)) :
    (server.execute clock authed name command).next = .raised raised := by
  simp only [Server.execute, dispatched]

end Execute

namespace Link

variable {clock : Clock} {link next : Link} {head : Arg} {args : List Arg} {found : Command}
  {reply value : Value} {left : Store}

/-- An idle link to a primary without a memory limit, of a client that may send commands. -/
structure Ready (link : Link) : Prop extends Link.Quiet link where
  authed : link.authed = true
  primary : link.server.replicaOf = none
  uncapped : Uncapped link.server.store
  reachable : Reachable link.server.store

theorem Ready.plain (ready : link.Ready) : link.server.store.Plain :=
  ⟨ready.uncapped, ready.reachable.scheduled⟩

theorem Ready.passes (ready : link.Ready) (name : Text) : link.server.Passes link.authed name := by
  refine ⟨ready.authed, fun replica => ?_, fun memory => ?_⟩
  · rw [ready.primary] at replica
    exact absurd replica.1 (by decide)
  · have full := memory.2.2
    simp [Store.overLimit, ready.uncapped.unlimited] at full

/-- What a shard receives of a command. -/
theorem received_parts (head : Arg) (args : List Arg) :
    received ((head :: args).map Arg.wire) = head.asBytes :: args.map Arg.asBytes :=
  received_map_wire (head :: args)

/-- The shard executes the command. -/
theorem Ready.handle (ready : link.Ready) (names : Names found head) :
    link.server.handle clock link.authed ((head :: args).map Arg.wire) =
      { link.server with commandsProcessed := link.server.commandsProcessed + 1 }.execute clock
        link.authed found.name (head.asBytes :: args.map Arg.asBytes) := by
  rcases Server.handle_gates clock link.server link.authed names.server (args.map Arg.wire) with
    ⟨-, executes⟩ | ⟨refused, -⟩
  · rw [List.map_cons, executes, ← List.map_cons, received_parts]
  · exact absurd (ready.passes found.name) refused

theorem Ready.served (ready : link.Ready)
    (deliverable : Deliverable ((head :: args).map Arg.wire))
    (dispatched : (dispatch clock link.server.store (head.asBytes :: args.map Arg.asBytes)).2 =
      left)
    (quiet : next.Quiet) (authed : next.authed = link.authed)
    (primary : next.server.replicaOf = link.server.replicaOf)
    (store : next.server.store = left) : next.Ready := by
  refine ⟨quiet, authed.trans ready.authed, primary.trans ready.primary, ?_, ?_⟩
  · rw [store, ← dispatched]
    exact ready.uncapped.dispatched clock _
  · have reached := Reachable.dispatch clock ready.reachable deliverable
    rw [List.map_map] at reached
    rw [store, ← dispatched]
    exact reached

/-- A command is answered, and the link is idle again. -/
theorem Ready.request (ready : link.Ready) (names : Names found head)
    (deliverable : Deliverable ((head :: args).map Arg.wire))
    (dispatched : dispatch clock link.server.store (head.asBytes :: args.map Arg.asBytes) =
      (.ok reply, left))
    (sendable : reply.Sendable) :
    ∃ next, link.request clock (head :: args) = some (reply.normal, next) ∧ next.Ready ∧
      next.server.store = left := by
  let counted : Server :=
    { link.server with commandsProcessed := link.server.commandsProcessed + 1 }
  have drained : left.evicted = [] := by
    have after := ready.uncapped.dispatched clock (head.asBytes :: args.map Arg.asBytes)
    rw [dispatched] at after
    exact after.drained
  obtain ⟨store, primary, authed, replies, again⟩ :=
    @Server.execute_ok clock counted link.authed found.name _ _ _ dispatched drained
  have read := readReply_encode sendable []
  let turn := counted.execute clock link.authed found.name (head.asBytes :: args.map Arg.asBytes)
  refine ⟨⟨turn.server, turn.authed, [], []⟩, ?_, ?_, store⟩
  · refine (Link.request_eq_some_iff ready.inbox deliverable).mpr ?_
    rw [ready.handle names]
    refine ⟨again, ?_, rfl⟩
    rw [replies, ready.outbox, List.nil_append, List.flatMap_singleton]
    rwa [List.append_nil] at read
  · exact ready.served deliverable (by rw [dispatched]) ⟨rfl, rfl⟩ authed primary store

/-- A request that is answered is one that returns a reply. -/
theorem Ready.returned (ready : link.Ready) (names : Names found head)
    (deliverable : Deliverable ((head :: args).map Arg.wire))
    (asked : link.request clock (head :: args) = some (value, next)) :
    ∃ reply left, dispatch clock link.server.store (head.asBytes :: args.map Arg.asBytes) =
        (.ok reply, left) ∧ readReply (encode reply) = .ok (value, next.outbox) := by
  let counted : Server :=
    { link.server with commandsProcessed := link.server.commandsProcessed + 1 }
  obtain ⟨again, read, -⟩ := (Link.request_eq_some_iff ready.inbox deliverable).mp asked
  rw [ready.handle names] at again read
  rcases dispatched : dispatch clock link.server.store (head.asBytes :: args.map Arg.asBytes) with
    ⟨raised | reply, left⟩
  · rw [@Server.execute_raised clock counted link.authed found.name _ _ _ dispatched] at again
    cases again
  · have drained : left.evicted = [] := by
      have after := ready.uncapped.dispatched clock (head.asBytes :: args.map Arg.asBytes)
      rw [dispatched] at after
      exact after.drained
    obtain ⟨-, -, -, replies, -⟩ :=
      @Server.execute_ok clock counted link.authed found.name _ _ _ dispatched drained
    rw [replies, ready.outbox, List.nil_append, List.flatMap_singleton] at read
    exact ⟨reply, left, rfl, read⟩

end Link

end MiniCache
