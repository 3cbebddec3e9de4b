import MiniCache.ServerTurns

/-!
# The write gate of the server

The gates of the server go by the name it reads in a command as ASCII; the
dispatcher reads the name as UTF-8.  A write can pass the gates unseen exactly
when its name is disguised: it has a byte outside ASCII and its upper-case form
is the name of a write command all the same.
-/

namespace MiniCache

open ExpiringMap (Effect Action applyAll)

/-- The live contents or deadlines of two stores differ. -/
def Changes (clock : Clock) (before after : Store) : Prop :=
  ∃ key, (after.live clock.monotonic).get? key ≠ (before.live clock.monotonic).get? key

theorem Observes.not_changes {clock : Clock} {before after : Store}
    (observes : Observes clock.monotonic before after) : ¬ Changes clock before after :=
  fun ⟨key, differs⟩ => differs (observes.view key)

/-- Arguments that a write command does not refuse whatever the store holds. -/
def Command.acceptable (args : List Arg) : Command → Bool
  | .set => (parseSet args).isOk
  | .mset => 2 ≤ args.length && args.length % 2 = 0
  | .incr | .decr | .persist => args.length = 1
  | .incrby | .decrby | .expire | .pexpire =>
      match args with
      | [_, amount] => (parseInt amount).isOk
      | _ => false
  | .pexpireat =>
      match args with
      | [_, moment] =>
          match intOfText (toText moment) with
          | none => false
          | some unixMs => !decide (QuotientOverflows unixMs)
      | _ => false
  | .del => !args.isEmpty
  | .flushdb => args.isEmpty
  | .ping | .echo | .get | .mget | .existsKey | .ttl | .keys | .dbsize => true

/-- A write command under a name that is not ASCII. -/
def Disguised (command : List Bytes) : Prop :=
  ¬ AsciiNamed command ∧
    ∃ found, Command.ofCommand (received command) = some found ∧ found.Writes ∧
      found.acceptable (received command).tail = true

/-- What the gates promise of a command: whenever it changes live contents, the
server knows it as a write; a replica's client changes nothing; every change
reaches the log and the replicas; and over the limit, without eviction, a command
that takes memory only looks. -/
structure WriteGate (command : List Bytes) : Prop where
  named : ∀ clock store,
    Changes clock store (dispatch clock store (received command)).2 →
      serverName command ∈ WRITE_COMMANDS
  replica : ∀ clock (server : Server) authed, server.replicaOf.isSome = true →
    ¬ Changes clock server.store (server.handle clock authed command).server.store
  recorded : ∀ clock (server : Server) authed,
    Changes clock server.store (server.handle clock authed command).server.store →
      ∃ records, toAofCommands clock.time (received command) = .ok records ∧
        let evictions := (dispatch clock server.store (received command)).2.evicted.map
          Server.evictionCommand
        let turn := server.handle clock authed command
        turn.server.aof.map AofLog.content = server.aof.map (fun aof =>
            aof.content ++ (records ++ evictions).flatMap encodeCommand) ∧
          turn.propagated = toReplicationCommand (received command) :: evictions
  memory : ∀ clock (server : Server) authed, server.store.policy = .noeviction →
    server.store.overLimit = true →
    (∃ found, Command.ofCommand (received command) = some found ∧
      found.name ∈ DENYOOM) →
    Observes clock.monotonic server.store (server.handle clock authed command).server.store

section Guarded

variable {clock : Clock} {store : Store} {args : List Arg}

/-- Arguments that are not acceptable make a command raise. -/
theorem error_of_not_acceptable {command : Command}
    (unacceptable : command.acceptable args = false) :
    ∃ raised, (command.handler clock store args).1 = .error raised := by
  cases command with
  | set =>
      rcases cmdSet_cases clock store args with
        ⟨raised, -, done⟩ | ⟨opts, _, parsed, -⟩ | ⟨opts, _, parsed, -⟩
      · exact ⟨_, by rw [Command.handler, done]⟩
      all_goals
        rw [Command.acceptable, parsed] at unacceptable
        cases unacceptable
  | mset =>
      have malformed : args.length < 2 ∨ args.length % 2 = 1 := by
        simp only [Command.acceptable, Bool.and_eq_false_iff, decide_eq_false_iff_not]
          at unacceptable
        omega
      exact ⟨_, by simp only [Command.handler, cmdMset, if_pos malformed]; rfl⟩
  | incr | decr | persist =>
      rcases args with _ | ⟨_, _ | ⟨_, _⟩⟩
      · exact ⟨_, rfl⟩
      · cases unacceptable
      · exact ⟨_, rfl⟩
  | incrby | decrby | expire | pexpire =>
      rcases args with _ | ⟨key, _ | ⟨amount, _ | ⟨_, _⟩⟩⟩
      case cons.cons.nil =>
        simp only [Command.acceptable] at unacceptable
        cases parsed : parseInt amount with
        | ok number =>
            rw [parsed] at unacceptable
            cases unacceptable
        | error raised =>
            exact ⟨raised, by
              simp only [Command.handler, cmdIncrby, cmdDecrby, cmdExpire, cmdPexpire,
                counterBy, lifetime, parsed]⟩
      all_goals exact ⟨_, rfl⟩
  | pexpireat =>
      rcases args with _ | ⟨key, _ | ⟨moment, _ | ⟨_, _⟩⟩⟩
      case cons.cons.nil =>
        simp only [Command.acceptable] at unacceptable
        simp only [Command.handler, cmdPexpireat]
        cases parsed : intOfText (toText moment) with
        | none => exact ⟨_, rfl⟩
        | some unixMs =>
            rw [parsed] at unacceptable
            have overflows : QuotientOverflows unixMs := by simpa using unacceptable
            dsimp only
            rw [if_pos overflows]
            exact ⟨_, rfl⟩
      all_goals exact ⟨_, rfl⟩
  | del =>
      rcases args with _ | ⟨_, _⟩
      · exact ⟨_, rfl⟩
      · cases unacceptable
  | flushdb =>
      rcases args with _ | ⟨_, _⟩
      · cases unacceptable
      · exact ⟨_, rfl⟩
  | ping | echo | get | mget | existsKey | ttl | keys | dbsize => cases unacceptable

/-- A command that changes live contents is accepted and can write. -/
theorem writes_of_changes {command : List Bytes}
    (changes : Changes clock store (dispatch clock store (received command)).2) :
    Accepted (dispatch clock store (received command)).1 ∧
      ∃ found, Command.ofCommand (received command) = some found ∧ found.Writes := by
  refine ⟨by_contra fun refused => (observes_of_refused refused).not_changes changes, ?_⟩
  by_contra none
  refine (observes_of_reads ?_).not_changes changes
  intro found known writes
  exact none ⟨found, known, writes⟩

/-- Without a disguise, a write under a name that is not ASCII is refused. -/
theorem refused_of_hidden {command : List Bytes} {found : Command}
    (plain : ¬ Disguised command) (hidden : ¬ AsciiNamed command)
    (known : Command.ofCommand (received command) = some found) (writes : found.Writes) :
    ¬ Accepted (dispatch clock store (received command)).1 := by
  intro accepted
  refine plain ⟨hidden, found, known, writes, ?_⟩
  by_contra unacceptable
  obtain ⟨name, done⟩ := dispatch_of_known known clock store
  obtain ⟨raised, failed⟩ := @error_of_not_acceptable clock store _ found
    (Bool.not_eq_true _ ▸ unacceptable)
  rw [done, accepted_replyTo_iff] at accepted
  obtain ⟨reply, outcome⟩ := accepted
  rw [failed] at outcome
  cases outcome

theorem asciiNamed_of_changes {command : List Bytes} (plain : ¬ Disguised command)
    (changes : Changes clock store (dispatch clock store (received command)).2) :
    AsciiNamed command := by
  by_contra hidden
  obtain ⟨accepted, found, known, writes⟩ := writes_of_changes changes
  exact refused_of_hidden plain hidden known writes accepted

theorem isWriteCommand_of_changes {command : List Bytes} (plain : ¬ Disguised command)
    (changes : Changes clock store (dispatch clock store (received command)).2) :
    isWriteCommand (serverName command) = true := by
  obtain ⟨-, found, known, writes⟩ := writes_of_changes changes
  rw [isWriteCommand_serverName (asciiNamed_of_changes plain changes) known]
  exact decide_eq_true writes

theorem name_mem_writeCommands {command : Command} (writes : command.Writes) :
    command.name ∈ WRITE_COMMANDS := by
  cases command <;> first | decide +kernel | cases writes

theorem writes_of_denyoom {command : Command} (takes : command.name ∈ DENYOOM) :
    command.Writes := by
  revert takes
  cases command <;> first | exact fun _ => trivial | (intro takes; revert takes; decide +kernel)

/-- A `SET` that changes live contents moves the write counter, and other writes
are logged anyway. -/
theorem logs_of_changes {command : List Bytes} (plain : ¬ Disguised command)
    (changes : Changes clock store (dispatch clock store (received command)).2) :
    Server.logs (serverName command) store.writes
      (dispatch clock store (received command)).2 = true := by
  obtain ⟨-, found, known, writes⟩ := writes_of_changes changes
  have name := serverName_of_asciiNamed (asciiNamed_of_changes plain changes) known
  rw [Server.logs, Bool.or_eq_true, decide_eq_true_eq, decide_eq_true_eq]
  by_contra silent
  rw [not_or, not_not, not_not] at silent
  obtain rfl := eq_set_of_name (name.symm.trans silent.1)
  obtain ⟨text, done⟩ := dispatch_of_known known clock store
  rw [done, replyTo_store] at silent changes
  exact (observes_cmdSet silent.2).not_changes changes

/-- What a turn changes, the command it executes has changed. -/
theorem changes_of_handle {server : Server} {authed : Bool} {command : List Bytes}
    (changes : Changes clock server.store (server.handle clock authed command).server.store) :
    Changes clock server.store (dispatch clock server.store (received command)).2 ∧
      ¬ (server.replicaOf.isSome = true ∧ isWriteCommand (serverName command) = true) ∧
      ¬ (serverName command ∈ DENYOOM ∧ server.store.policy = .noeviction ∧
        server.store.overLimit = true) ∧
      server.handle clock authed command =
        { server with commandsProcessed := server.commandsProcessed + 1 }.execute clock
          authed (serverName command) (received command) := by
  rcases Server.handle_cases clock server authed command with
    quiet | ⟨-, open_, fits, executes⟩
  · exact absurd changes quiet.observes.not_changes
  · refine ⟨?_, open_, fits, executes⟩
    rw [executes] at changes
    by_cases goes : Accepted (dispatch clock server.store (received command)).1 ∧
        isWriteCommand (serverName command) = true
    · obtain ⟨records, recorded⟩ := toAofCommands_of_accepted goes.1 clock.time
      have turn := (Server.execute_of_accepted clock
        { server with commandsProcessed := server.commandsProcessed + 1 } authed
        goes.1 goes.2 recorded).1
      rw [turn] at changes
      exact changes
    · have turn := (Server.execute_of_refused clock
        { server with commandsProcessed := server.commandsProcessed + 1 } authed goes).1
      rw [turn] at changes
      exact changes

/-- Without a disguise the gates keep their promise. -/
theorem writeGate_of_plain {command : List Bytes} (plain : ¬ Disguised command) :
    WriteGate command := by
  constructor
  · intro clock store changes
    obtain ⟨-, found, known, writes⟩ := writes_of_changes changes
    rw [serverName_of_asciiNamed (asciiNamed_of_changes plain changes) known]
    exact name_mem_writeCommands writes
  · intro clock server authed isReplica changes
    obtain ⟨executed, readonly, -⟩ := changes_of_handle changes
    exact readonly ⟨isReplica, isWriteCommand_of_changes plain executed⟩
  · intro clock server authed changes
    obtain ⟨executed, -, -, executes⟩ := changes_of_handle changes
    have accepted := (writes_of_changes executed).1
    obtain ⟨records, recorded⟩ := toAofCommands_of_accepted accepted clock.time
    obtain ⟨-, -, content, sent⟩ := Server.execute_of_accepted clock
      { server with commandsProcessed := server.commandsProcessed + 1 } authed accepted
      (isWriteCommand_of_changes plain executed) recorded
    refine ⟨records, recorded, ?_⟩
    rw [executes]
    simp only [Server.written, logs_of_changes plain executed] at content sent
    exact ⟨content, sent⟩
  · rintro clock server authed policy full ⟨found, known, takes⟩
    rcases Server.handle_cases clock server authed command with
      quiet | ⟨-, -, fits, executes⟩
    · exact quiet.observes
    · have hidden : ¬ AsciiNamed command := fun ascii =>
        fits ⟨by rwa [serverName_of_asciiNamed ascii known], policy, full⟩
      have refused := @refused_of_hidden clock server.store _ _ plain hidden known
        (writes_of_denyoom takes)
      have turn := (@Server.execute_of_refused clock
        { server with commandsProcessed := server.commandsProcessed + 1 } authed
        (serverName command) _ fun goes => refused goes.1).1
      rw [executes, turn]
      exact observes_of_refused refused

end Guarded

section Unguarded

variable {clock : Clock} {store : Store} {plain : PlainMap} {args : List Arg}

theorem mapDeadline_injective (clock : Clock) :
    Function.Injective (@ExpiringMap.mapDeadline Arg Time Time clock.toMonotonic) := by
  apply Option.map_injective
  rintro ⟨value, deadline⟩ ⟨otherValue, otherDeadline⟩ same
  simp only [Prod.mk.injEq] at same
  rw [same.1, Option.map_injective clock.toMonotonic_strictMono.injective same.2]

/-- A command whose effects change the plain map changes the store. -/
theorem changes_of_effects (represents : Represents clock store plain) {command : Command}
    (key : Arg)
    (differs : ExpiringMap.live clock.time
        (applyAll clock.time (command.effects clock.time plain args) plain key) ≠
      ExpiringMap.live clock.time (plain key)) :
    Changes clock store (command.handler clock store args).2 := by
  refine ⟨key, fun same => differs ?_⟩
  rw [(represents_handler represents command args).get?, represents.get?] at same
  exact mapDeadline_injective clock same

/-- The plain map with one key. -/
def holding (key value : Arg) (deadline : Option Time) : PlainMap :=
  (Effect.act key (.write value deadline)).apply 0 fun _ => none

/-- A store with one key. -/
theorem represents_holding (key value : Arg) (deadline : Option Time) :
    Represents Clock.epoch ((Store.init 0 .noeviction).set 0 key value deadline)
      (holding key value deadline) := by
  have stored := (represents_init Clock.epoch .noeviction).set key value deadline
  have same : deadline.map (Clock.epoch.time + ·) = deadline := by
    cases deadline <;> simp [Clock.epoch]
  rw [same] at stored
  exact stored

theorem holding_self (key value : Arg) (deadline : Option Time) :
    holding key value deadline key = some (value, deadline) :=
  ExpiringMap.Effect.apply_act_self ..

/-- A value other than a given one. -/
def otherValue (value : Arg) : Arg := if value = .bytes [] then .bytes [0] else .bytes []

theorem otherValue_ne (value : Arg) : otherValue value ≠ value := by
  unfold otherValue
  split_ifs with empty
  · rw [empty]
    decide
  · exact Ne.symm empty

/-- The content of a live cell is what it holds, or nothing. -/
theorem live_ne_of_ne {now : Time} {cell : ExpiringMap.Cell Arg Time}
    {content : Arg × Option Time} (differs : cell ≠ some content) :
    ExpiringMap.live now cell ≠ some content := by
  intro live
  obtain ⟨value, deadline⟩ := content
  exact differs (ExpiringMap.live_eq_some_iff.mp live).1

/-- Pairs of an `MSET` only write. -/
theorem applyAll_pairWrites {now : Time} (pairs : List Arg) {space : PlainMap} {key : Arg}
    (written : ∃ value, space key = some (value, none)) :
    ∃ value, applyAll now (pairWrites pairs) space key = some (value, none) := by
  induction pairs using pairWrites.induct generalizing space with
  | case1 other value rest ih =>
      rw [pairWrites, ExpiringMap.applyAll_cons]
      apply ih
      by_cases same : other = key
      · subst other
        exact ⟨value, ExpiringMap.Effect.apply_act_self ..⟩
      · rw [ExpiringMap.Effect.apply_act_of_ne _ _ _ same]
        exact written
  | case2 rest single =>
      rw [pairWrites]
      · exact written
      · exact single

theorem greatest_of_minusOne :
    Store.incremented (some (.bytes [45, 49])) (2 ^ 63) = .ok (2 ^ 63 - 1) := by
  decide +kernel

/-- An acceptable write changes some store. -/
theorem exists_changes {command : Command} (writes : command.Writes)
    (acceptable : command.acceptable args = true) :
    ∃ clock store, Changes clock store (command.handler clock store args).2 := by
  -- It is enough to look at the empty map and at maps with one key.
  have onEmpty (key : Arg) (appears : ExpiringMap.live 0
      (applyAll 0 (command.effects 0 (fun _ => none) args) (fun _ => none) key) ≠ none) :
      ∃ clock store, Changes clock store (command.handler clock store args).2 :=
    ⟨Clock.epoch, _, changes_of_effects (represents_init Clock.epoch .noeviction) key appears⟩
  have onKey (key value : Arg) (deadline : Option Time)
      (alive : ExpiringMap.Alive 0 deadline)
      (differs : applyAll 0 (command.effects 0 (holding key value deadline) args)
        (holding key value deadline) key ≠ some (value, deadline)) :
      ∃ clock store, Changes clock store (command.handler clock store args).2 := by
    refine ⟨Clock.epoch, _, changes_of_effects (represents_holding key value deadline) key ?_⟩
    rw [holding_self]
    exact (live_ne_of_ne differs).trans_eq
      (ExpiringMap.live_some_of_alive value alive).symm
  cases command with
  | set =>
      cases parsed : parseSet args with
      | error raised =>
          rw [Command.acceptable, parsed] at acceptable
          cases acceptable
      | ok opts =>
          obtain ⟨exclusive, lifetime⟩ := parseSet_ok parsed
          cases onlyNew : opts.nx with
          | true =>
              have free : opts.blocked false = false := by
                simpa [SetOptions.blocked, onlyNew] using exclusive
              refine onEmpty opts.key ?_
              have alive : ExpiringMap.Alive 0 opts.ttl := fun ttl member => (lifetime ttl member).1
              simp [Command.effects, setEffects, parsed, free, ExpiringMap.Action.apply,
                ExpiringMap.live_some_of_alive _ alive]
          | false =>
              refine onKey opts.key (otherValue opts.value) none (by simp) ?_
              have free : opts.blocked true = false := by simp [SetOptions.blocked, onlyNew]
              have differs := (otherValue_ne opts.value).symm
              simp [Command.effects, setEffects, parsed, holding_self, free,
                ExpiringMap.Action.apply, differs]
  | mset =>
      rcases args with _ | ⟨key, _ | ⟨value, rest⟩⟩
      · cases acceptable
      · cases acceptable
      · have even : ¬ ((key :: value :: rest).length < 2 ∨
            (key :: value :: rest).length % 2 = 1) := by
          simp only [Command.acceptable, Bool.and_eq_true, decide_eq_true_eq] at acceptable
          omega
        refine onEmpty key ?_
        rw [Command.effects, if_neg even, pairWrites, ExpiringMap.applyAll_cons]
        obtain ⟨last, written⟩ := @applyAll_pairWrites 0 rest _ key
          ⟨value, ExpiringMap.Effect.apply_act_self 0 (fun _ => none) key (.write value none)⟩
        rw [written, ExpiringMap.live_some_none]
        exact Option.some_ne_none _
  | incr | decr =>
      rcases args with _ | ⟨key, _ | ⟨_, _⟩⟩
      · cases acceptable
      · refine onEmpty key ?_
        simp [Command.effects, counterEffects, counterEffect, ExpiringMap.Action.apply,
          incrementUpdate, Store.incremented, InInt64]
      · cases acceptable
  | incrby =>
      rcases args with _ | ⟨key, _ | ⟨amount, _ | ⟨_, _⟩⟩⟩
      case cons.cons.nil =>
        cases parsed : parseInt amount with
        | error raised =>
            simp only [Command.acceptable, parsed] at acceptable
            cases acceptable
        | ok delta =>
            refine onEmpty key ?_
            simp [Command.effects, counterByEffects, counterEffect, parsed,
              ExpiringMap.Action.apply, incrementUpdate, Store.incremented,
              (parseInt_ok parsed).2]
      all_goals cases acceptable
  | decrby =>
      rcases args with _ | ⟨key, _ | ⟨amount, _ | ⟨_, _⟩⟩⟩
      case cons.cons.nil =>
        cases parsed : parseInt amount with
        | error raised =>
            simp only [Command.acceptable, parsed] at acceptable
            cases acceptable
        | ok delta =>
            have bounds := (parseInt_ok parsed).2
            by_cases least : delta = -(2 ^ 63)
            · -- Minus the least number fits only where it meets a negative one.
              refine onKey key (.bytes [45, 49]) none (by simp) ?_
              subst delta
              have update : incrementUpdate key (2 ^ 63) (some (.bytes [45, 49])) =
                  some ((Arg.bytes [45, 49]).ofText (intText (2 ^ 63 - 1))) := by
                rw [incrementUpdate, greatest_of_minusOne]
                rfl
              have differs : (Arg.bytes [45, 49]).ofText (intText (2 ^ 63 - 1)) ≠
                  .bytes [45, 49] := by decide +kernel
              have step : (-1 : Int) * -(2 ^ 63) = 2 ^ 63 := by norm_num
              simp only [Command.effects, counterByEffects, counterEffect, parsed, step,
                ExpiringMap.applyAll_cons, ExpiringMap.applyAll_nil,
                ExpiringMap.Effect.apply_act_self, holding_self, ExpiringMap.Action.apply,
                ExpiringMap.live_some_none, update]
              simpa using differs
            · have fits : InInt64 (-delta) := by
                unfold InInt64 at bounds ⊢
                omega
              refine onEmpty key ?_
              simp [Command.effects, counterByEffects, counterEffect, parsed,
                ExpiringMap.Action.apply, incrementUpdate, Store.incremented, fits]
      all_goals cases acceptable
  | del =>
      rcases args with _ | ⟨key, rest⟩
      · cases acceptable
      · refine onKey key (.bytes []) none (by simp) ?_
        have gone : applyAll 0 (Command.del.effects 0 (holding key (.bytes []) none) (key :: rest))
            (holding key (.bytes []) none) key = none :=
          (applyAll_clear 0 (key :: rest) _ key).trans (if_pos (List.mem_cons_self ..))
        rw [gone]
        exact (Option.some_ne_none _).symm
  | expire | pexpire =>
      rcases args with _ | ⟨key, _ | ⟨amount, _ | ⟨_, _⟩⟩⟩
      case cons.cons.nil =>
        cases parsed : parseInt amount with
        | error raised =>
            simp only [Command.acceptable, parsed] at acceptable
            cases acceptable
        | ok number =>
            refine onKey key (.bytes []) none (by simp) ?_
            simp [Command.effects, lifetimeEffects, parsed, holding_self,
              ExpiringMap.Action.apply]
      all_goals cases acceptable
  | pexpireat =>
      rcases args with _ | ⟨key, _ | ⟨moment, _ | ⟨_, _⟩⟩⟩
      case cons.cons.nil =>
        simp only [Command.acceptable] at acceptable
        cases parsed : intOfText (toText moment) with
        | none =>
            rw [parsed] at acceptable
            cases acceptable
        | some unixMs =>
            rw [parsed] at acceptable
            have fits : ¬ QuotientOverflows unixMs := by simpa using acceptable
            refine onKey key (.bytes []) none (by simp) ?_
            simp [Command.effects, deadlineEffects, parsed, fits, holding_self,
              ExpiringMap.Action.apply]
      all_goals cases acceptable
  | persist =>
      rcases args with _ | ⟨key, _ | ⟨_, _⟩⟩
      · cases acceptable
      · have alive : ExpiringMap.Alive 0 (some (1 : Time)) := by simp
        refine onKey key (.bytes []) (some 1) alive ?_
        simp [Command.effects, persistEffects, holding_self, ExpiringMap.Action.apply,
          ExpiringMap.live_some_of_alive _ alive]
      · cases acceptable
  | flushdb =>
      rcases args with _ | ⟨_, _⟩
      · refine onKey (.bytes []) (.bytes []) none (by simp) ?_
        simp [Command.effects, flushEffects]
      · cases acceptable
  | ping | echo | get | mget | existsKey | ttl | keys | dbsize => cases writes

theorem isWriteCommand_of_mem {name : Text} (member : name ∈ WRITE_COMMANDS) :
    isWriteCommand name = true := by
  have same : ∀ name ∈ WRITE_COMMANDS, isWriteCommand name = true := by decide +kernel
  exact same name member

/-- A disguised write passes the gates. -/
theorem not_writeGate_of_disguised {command : List Bytes} (disguised : Disguised command) :
    ¬ WriteGate command := by
  rintro ⟨named, -⟩
  obtain ⟨hidden, found, known, writes, acceptable⟩ := disguised
  obtain ⟨clock, store, changes⟩ := exists_changes writes acceptable
  obtain ⟨name, done⟩ := dispatch_of_known known clock store
  have member : serverName command ∈ WRITE_COMMANDS := by
    apply named clock store
    rw [done, replyTo_store]
    exact changes
  exact hidden (asciiNamed_of_isWriteCommand (isWriteCommand_of_mem member))

end Unguarded

/-- The gates keep their promise for every command that is not a disguised write. -/
theorem writeGate_iff (command : List Bytes) : WriteGate command ↔ ¬ Disguised command :=
  ⟨fun gate disguised => not_writeGate_of_disguised disguised gate, writeGate_of_plain⟩

/-- `SET` spelled with a long s, as a client of a replica may send it. -/
def longSet : List Bytes := [[0xC5, 0xBF, 101, 116], [107], [118]]

theorem not_writeGate_longSet : ¬ WriteGate longSet :=
  not_writeGate_of_disguised
    ⟨by decide +kernel, .set, by decide +kernel, trivial, by decide +kernel⟩

end MiniCache
