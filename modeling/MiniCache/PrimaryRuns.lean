import MiniCache.AofRecords

/-!
# Primaries without a memory limit

What a client's command does on a primary whose store has no memory limit: it
leaves the contents, the log and the stream alone, or it is logged, sent to the
replicas and has its effects on the plain map.
-/

namespace MiniCache

open ExpiringMap (Effect applyAll)

namespace Server

/-- Which keys a server finds live. -/
def finds (clock : Clock) (server : Server) (key : Arg) : Bool :=
  ((server.store.live clock.monotonic).get? key).isSome

/-- A command of a client is logged and sent to the replicas. -/
def Logs (clock : Clock) (server : Server) (authed : Bool) (command : List Bytes) : Prop :=
  (server.handle clock authed command).propagated ≠ []

instance (clock : Clock) (server : Server) (authed : Bool) (command : List Bytes) :
    Decidable (server.Logs clock authed command) :=
  inferInstanceAs (Decidable (_ ≠ _))

end Server

variable {clock : Clock} {server : Server} {authed : Bool} {command : List Bytes}
  {plain : PlainMap}

/-- A turn of a primary that leaves everything as it is. -/
structure Idle (clock : Clock) (server : Server) (plain : PlainMap) (turn : Turn) : Prop where
  represents : Represents clock turn.server.store plain
  content : turn.server.aof.map AofLog.content = server.aof.map AofLog.content
  propagated : turn.propagated = []

/-- A turn of a primary that executes, logs and propagates a command. -/
structure Logged (clock : Clock) (server : Server) (plain : PlainMap)
    (command : List Bytes) (turn : Turn) : Prop where
  accepted : Accepted (dispatch clock server.store (received command)).1
  known : ∃ found, Command.ofCommand (received command) = some found ∧ found.Writes
  free : ∀ opts, Command.ofCommand (received command) = some .set →
    parseSet (received command).tail = .ok opts →
      opts.blocked (server.finds clock opts.key) = false
  represents : Represents clock turn.server.store
    (applyAll clock.time (commandEffects clock.time plain (received command)) plain)
  propagated : turn.propagated = [toReplicationCommand (received command)]
  records : ∃ records, toAofCommands clock.time (received command) = .ok records ∧
    LogTells (records.map sent)
      (loggedEffects clock.time (server.finds clock) (received command)) ∧
    turn.server.aof.map AofLog.content =
      server.aof.map fun aof => aof.content ++ logOf (records.map sent)

/-- A `SET` whose options hold it back leaves the write counter alone. -/
theorem writes_of_blocked {store : Store} {opts : SetOptions} {args : List Arg}
    (parsed : parseSet args = .ok opts)
    (blocked : opts.blocked ((store.live clock.monotonic).get? opts.key).isSome = true) :
    (cmdSet clock store args).2.writes = store.writes := by
  rcases cmdSet_cases clock store args with
    ⟨_, failed, -⟩ | ⟨other, _, otherParsed, -, done⟩ | ⟨other, _, otherParsed, free, -⟩
  · rw [parsed] at failed
    cases failed
  · rw [done]
    exact (observes_afterLookup clock store other).writes
  · rw [parsed] at otherParsed
    cases otherParsed
    rw [blocked] at free
    cases free

theorem dispatch_store_of_set {store : Store}
    (known : Command.ofCommand (received command) = some .set) :
    (dispatch clock store (received command)).2 =
      (cmdSet clock store (received command).tail).2 := by
  obtain ⟨name, done⟩ := dispatch_of_known known clock store
  rw [done, replyTo_store]
  rfl

/-- Only a `SET` that was held back is not logged. -/
theorem observes_of_unlogged {store : Store} {found : Command} (ascii : AsciiNamed command)
    (known : Command.ofCommand (received command) = some found)
    (unlogged : Server.logs (serverName command) store.writes
      (dispatch clock store (received command)).2 = false) :
    found = .set ∧
      Observes clock.monotonic store (dispatch clock store (received command)).2 := by
  simp only [Server.logs, Bool.or_eq_false_iff, decide_eq_false_iff_not, not_not] at unlogged
  have isSet := eq_set_of_name ((serverName_of_asciiNamed ascii known).symm.trans unlogged.1)
  subst isSet
  refine ⟨rfl, ?_⟩
  rw [dispatch_store_of_set known] at unlogged ⊢
  exact observes_cmdSet unlogged.2

/-- A `SET` that is logged was not held back. -/
theorem free_of_logged {store : Store} (ascii : AsciiNamed command)
    (logged : Server.logs (serverName command) store.writes
      (dispatch clock store (received command)).2 = true) {opts : SetOptions}
    (isSet : Command.ofCommand (received command) = some .set)
    (parsed : parseSet (received command).tail = .ok opts) :
    opts.blocked ((store.live clock.monotonic).get? opts.key).isSome = false := by
  by_contra blocked
  rw [Bool.not_eq_false] at blocked
  have same := @writes_of_blocked clock store _ _ parsed blocked
  rw [← dispatch_store_of_set isSet] at same
  have isName : serverName command = "SET".toList := serverName_of_asciiNamed ascii isSet
  simp [Server.logs, isName, same] at logged

/-- On a primary without a memory limit a turn is idle or logs its command. -/
theorem idle_or_logged (authed : Bool) (represents : Represents clock server.store plain)
    (ascii : AsciiNamed command) (deliverable : Deliverable command) :
    (server.handle clock authed command).server.replicaOf = server.replicaOf ∧
      (Idle clock server plain (server.handle clock authed command) ∨
        Logged clock server plain command (server.handle clock authed command)) := by
  rcases Server.handle_cases clock server authed command with
    quiet | ⟨-, -, -, executes⟩
  · exact ⟨quiet.replicaOf,
      Or.inl ⟨quiet.observes.represents represents, quiet.content, quiet.propagated⟩⟩
  let counted : Server := { server with commandsProcessed := server.commandsProcessed + 1 }
  have after := represents_dispatch represents (received command)
  rw [executes]
  by_cases goes : Accepted (dispatch clock server.store (received command)).1 ∧
      isWriteCommand (serverName command) = true
  · obtain ⟨accepted, isWrite⟩ := goes
    obtain ⟨found, reply, known, -⟩ := accepted_known accepted
    obtain ⟨records, recorded⟩ := toAofCommands_of_accepted accepted clock.time
    obtain ⟨store, replicaOf, content, propagated⟩ :=
      Server.execute_of_accepted clock counted authed accepted isWrite recorded
    have drained : (dispatch clock counted.store (received command)).2.evicted = [] :=
      after.drained
    refine ⟨replicaOf, ?_⟩
    rw [drain_of_nil drained] at store
    simp only [Server.written, drained, List.map_nil, List.append_nil] at content propagated
    cases logs : Server.logs (serverName command) server.store.writes
        (dispatch clock server.store (received command)).2 with
    | false =>
        left
        have looked := (observes_of_unlogged ascii known logs).2
        rw [logs] at content propagated
        refine ⟨?_, by simpa using content, propagated⟩
        rw [store]
        exact looked.represents represents
    | true =>
        right
        rw [logs] at content propagated
        have free : ∀ opts, Command.ofCommand (received command) = some .set →
            parseSet (received command).tail = .ok opts →
              opts.blocked (server.finds clock opts.key) = false :=
          fun opts isSet parsed => free_of_logged ascii logs isSet parsed
        have writes : found.Writes := by
          rw [isWriteCommand_serverName ascii known] at isWrite
          exact of_decide_eq_true isWrite
        refine ⟨accepted, ⟨found, known, writes⟩, free, ?_, propagated, records, recorded,
          logTells_toAofCommands accepted deliverable recorded free, ?_⟩
        · rw [store]
          exact after
        · rw [content, if_pos rfl]
          simp only [flatMap_encodeCommand]
          rfl
  · obtain ⟨store, propagated⟩ :=
      Server.execute_of_refused clock counted authed goes
    refine ⟨by rw [store], Or.inl ⟨?_, by rw [store], propagated⟩⟩
    rw [store]
    by_cases accepted : Accepted (dispatch clock server.store (received command)).1
    · refine (observes_of_reads ?_).represents represents
      intro found known writes
      refine goes ⟨accepted, ?_⟩
      rw [isWriteCommand_serverName ascii known]
      exact decide_eq_true writes
    · have same := effects_of_refused represents accepted
      rw [same] at after
      exact after

end MiniCache
