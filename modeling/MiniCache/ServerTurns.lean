import MiniCache.CommandOutcome
import MiniCache.Server

/-!
# Turns of the server loop

A turn leaves the live contents, the log and the stream alone, or it executes a
command that the gates let through.  An accepted write command is then logged
and propagated, followed by the evictions it caused.
-/

namespace MiniCache

section Names

theorem eq_set_of_name {found : Command} (name : found.name = "SET".toList) : found = .set :=
  Option.some.inj ((Command.ofName_eq_some_iff.mpr name).symm.trans
    (Command.ofName_eq_some_iff.mpr rfl))

/-- The write commands of the log are the commands that can write. -/
theorem isWriteCommand_name (command : Command) :
    isWriteCommand command.name = decide command.Writes := by
  cases command <;> decide +kernel

/-- The name under which the server knows a command. -/
def serverName : List Bytes → Text
  | [] => []
  | head :: _ => upper (decodeAscii head)

/-- A command whose name consists of ASCII bytes. -/
def AsciiNamed (command : List Bytes) : Prop :=
  ∀ head ∈ command.head?, ∀ byte ∈ head, byte < 0x80

instance (command : List Bytes) : Decidable (AsciiNamed command) :=
  inferInstanceAs (Decidable (∀ head ∈ command.head?, ∀ byte ∈ head, byte < 0x80))

/-- The server and the dispatcher agree on ASCII names. -/
theorem serverName_of_asciiNamed {command : List Bytes} (ascii : AsciiNamed command)
    {found : Command} (known : Command.ofCommand (received command) = some found) :
    serverName command = found.name := by
  cases command with
  | nil => cases known
  | cons head args =>
      rw [serverName, decodeAscii_of_ascii (ascii head rfl)]
      exact (Command.ofName_eq_some_iff.mp known).symm

theorem mem_upper_replacement {text : Text} (member : '\uFFFD' ∈ text) :
    '\uFFFD' ∈ upper text :=
  List.mem_flatMap.mpr ⟨'\uFFFD', member, by decide +kernel⟩

theorem ascii_of_isWriteCommand {text : Text} (isWrite : isWriteCommand text = true) :
    '\uFFFD' ∉ text := by
  intro member
  have inName := mem_upper_replacement member
  have inTable : upper text ∈ WRITE_COMMANDS := by
    simpa [isWriteCommand] using isWrite
  have plain : ∀ name ∈ WRITE_COMMANDS, '\uFFFD' ∉ name := by decide +kernel
  exact plain _ inTable inName

/-- A name with another byte is not the name of a write command. -/
theorem asciiNamed_of_isWriteCommand {command : List Bytes}
    (isWrite : isWriteCommand (serverName command) = true) : AsciiNamed command := by
  cases command with
  | nil =>
      intro head member
      cases member
  | cons head args =>
      intro other same byte member
      obtain rfl := Option.some.inj same
      by_contra large
      refine ascii_of_isWriteCommand isWrite (mem_upper_replacement ?_)
      exact List.mem_map.mpr ⟨byte, member, if_neg large⟩

/-- For an ASCII name, the server's test is whether the command can write. -/
theorem isWriteCommand_serverName {command : List Bytes} (ascii : AsciiNamed command)
    {found : Command} (known : Command.ofCommand (received command) = some found) :
    isWriteCommand (serverName command) = decide found.Writes := by
  rw [serverName_of_asciiNamed ascii known, isWriteCommand_name]

end Names

section Records

variable {clock : Clock} {store : Store}

theorem accepted_known {command : List Arg}
    (accepted : Accepted (dispatch clock store command).1) :
    ∃ found reply, Command.ofCommand command = some found ∧
      (found.handler clock store command.tail).1 = .ok reply := by
  cases known : Command.ofCommand command with
  | none =>
      obtain ⟨message, done⟩ := dispatch_of_unknown known clock store
      rw [done] at accepted
      cases accepted
  | some found =>
      obtain ⟨name, done⟩ := dispatch_of_known known clock store
      rw [done, accepted_replyTo_iff] at accepted
      obtain ⟨reply, outcome⟩ := accepted
      exact ⟨found, reply, rfl, outcome⟩

/-- The amount of an accepted lifetime is an integer literal. -/
theorem lifetime_ok {perSecond : Time} {key amount : Arg} {reply : Value}
    (done : (lifetime perSecond clock store [key, amount]).1 = .ok reply) :
    ∃ number, parseInt amount = .ok number := by
  simp only [lifetime] at done
  cases parsed : parseInt amount with
  | error raised =>
      rw [parsed] at done
      cases done
  | ok number => exact ⟨number, rfl⟩

/-- An accepted command has records for the log. -/
theorem toAofCommands_of_accepted {command : List Arg}
    (accepted : Accepted (dispatch clock store command).1) (time : Time) :
    ∃ records, toAofCommands time command = .ok records := by
  obtain ⟨found, reply, known, done⟩ := accepted_known accepted
  cases command with
  | nil => cases known
  | cons head args =>
      have named := Command.ofName_eq_some_iff.mp known
      unfold toAofCommands
      dsimp only
      have logged {perSecond : Time} {key amount : Arg}
          (done : (lifetime perSecond clock store [key, amount]).1 = .ok reply) :
          ∃ number, loggedNumber amount = .ok number := by
        obtain ⟨number, parsed⟩ := lifetime_ok done
        exact ⟨number, by rw [loggedNumber, (parseInt_ok parsed).1]⟩
      split_ifs with isSet isExpire isPexpire
      · split
        · exact ⟨_, rfl⟩
        · split <;> exact ⟨_, rfl⟩
      · rw [isExpire] at named
        obtain rfl : found = .expire :=
          Option.some.inj ((Command.ofName_eq_some_iff.mpr named).symm.trans rfl)
        split
        · obtain ⟨number, same⟩ := logged done
          rw [same]
          exact ⟨_, rfl⟩
        · exact ⟨_, rfl⟩
      · rw [isPexpire] at named
        obtain rfl : found = .pexpire :=
          Option.some.inj ((Command.ofName_eq_some_iff.mpr named).symm.trans rfl)
        split
        · obtain ⟨number, same⟩ := logged done
          rw [same]
          exact ⟨_, rfl⟩
        · exact ⟨_, rfl⟩
      · exact ⟨_, rfl⟩

end Records

section Turns

namespace Server

variable (clock : Clock) (server : Server) (authed : Bool)

/-- A turn that changes neither the live contents nor the log and sends nothing
to the replicas. -/
structure Quiet (turn : Turn) : Prop where
  observes : Observes clock.monotonic server.store turn.server.store
  content : turn.server.aof.map AofLog.content = server.aof.map AofLog.content
  replicaOf : turn.server.replicaOf = server.replicaOf
  propagated : turn.propagated = []

variable {clock server authed}

variable (clock server authed) in
theorem execute_of_refused {name : Text} {command : List Arg}
    (refused : ¬ (Accepted (dispatch clock server.store command).1 ∧
      isWriteCommand name = true)) :
    (server.execute clock authed name command).server =
        { server with store := (dispatch clock server.store command).2 } ∧
      (server.execute clock authed name command).propagated = [] := by
  unfold execute
  cases outcome : dispatch clock server.store command with
  | mk result store =>
      cases result with
      | error raised => exact ⟨rfl, rfl⟩
      | ok reply =>
          rw [outcome] at refused
          have held : ¬ (reply.isError = false ∧ isWriteCommand name = true) := refused
          simp only [if_neg held, and_self]

/-- What a turn logs or sends: the forms of the command and a deletion for every
eviction. -/
def written (name : Text) (before : Nat) (forms : List (List Arg)) (store : Store) :
    List (List Arg) :=
  (if logs name before store then forms else []) ++ store.evicted.map evictionCommand

theorem records_ok {command : List Arg} {forms : List (List Arg)} (logged : Bool)
    (recorded : toAofCommands clock.time command = .ok forms) :
    server.records clock logged command =
      .ok (if logged && server.aof.isSome then forms else []) := by
  unfold records
  split_ifs
  · exact recorded
  · rfl

theorem content_append (records : List (List Arg)) :
    (server.append records).aof.map AofLog.content =
      server.aof.map fun aof => aof.content ++ records.flatMap encodeCommand := by
  unfold append
  cases server.aof <;> rfl

variable (clock server authed) in
/-- An accepted write command is logged and propagated, unless it is a `SET` that
was held back; the evictions follow. -/
theorem execute_of_accepted {name : Text} {command : List Arg} {forms : List (List Arg)}
    (accepted : Accepted (dispatch clock server.store command).1)
    (isWrite : isWriteCommand name = true)
    (recorded : toAofCommands clock.time command = .ok forms) :
    let store := (dispatch clock server.store command).2
    let turn := server.execute clock authed name command
    turn.server.store = store.drainEvictions.2 ∧
      turn.server.replicaOf = server.replicaOf ∧
      turn.server.aof.map AofLog.content = server.aof.map (fun aof => aof.content ++
        (written name server.store.writes forms store).flatMap encodeCommand) ∧
      turn.propagated =
        written name server.store.writes [toReplicationCommand command] store := by
  intro store turn
  unfold turn execute store
  cases outcome : dispatch clock server.store command with
  | mk result left =>
      rw [outcome] at accepted
      cases result with
      | error raised => cases accepted
      | ok reply =>
          have fine : reply.isError = false ∧ isWriteCommand name = true :=
            ⟨accepted, isWrite⟩
          simp only [if_pos fine, records_ok _ recorded]
          refine ⟨rfl, rfl, ?_, rfl⟩
          rw [content_append, written]
          cases aof : server.aof with
          | none => rfl
          | some log => simp [Store.drainEvictions]

/-- A turn that touches neither the store nor the content of the log. -/
theorem quiet_of_same {turn : Turn} (store : turn.server.store = server.store)
    (content : turn.server.aof.map AofLog.content = server.aof.map AofLog.content)
    (replicaOf : turn.server.replicaOf = server.replicaOf) (sent : turn.propagated = []) :
    Quiet clock server turn :=
  ⟨by rw [store]; exact Observes.refl _ _, content, replicaOf, sent⟩

theorem startRewrite_frame (server : Server) :
    server.startRewrite.2.store = server.store ∧
      server.startRewrite.2.aof.map AofLog.content = server.aof.map AofLog.content ∧
      server.startRewrite.2.replicaOf = server.replicaOf := by
  unfold startRewrite
  cases log : server.aof with
  | none => exact ⟨rfl, by rw [log], rfl⟩
  | some log =>
      dsimp only
      split
      · exact ⟨rfl, by simp_all, rfl⟩
      · exact ⟨rfl, rfl, rfl⟩

variable (clock server authed) in
theorem execute_linkUp (name : Text) (command : List Arg) :
    (server.execute clock authed name command).server.linkUp = server.linkUp := by
  unfold execute
  split
  · rfl
  · split_ifs
    · dsimp only
      split <;> rfl
    · rfl

variable (clock server authed) in
/-- Clients leave the link to the primary alone. -/
theorem handle_linkUp (command : List Bytes) :
    (server.handle clock authed command).server.linkUp = server.linkUp := by
  cases command with
  | nil => rfl
  | cons head args =>
      unfold handle startRewrite
      dsimp only
      split_ifs
      all_goals first
        | rfl
        | exact execute_linkUp ..
        | (split <;> first | rfl | (split_ifs <;> rfl))

variable (clock server authed) in
/-- A turn is quiet or executes a command that passed every gate. -/
theorem handle_cases (command : List Bytes) :
    Quiet clock server (server.handle clock authed command) ∨
      (authed = true ∧
        ¬ (server.replicaOf.isSome = true ∧ isWriteCommand (serverName command) = true) ∧
        ¬ (serverName command ∈ DENYOOM ∧ server.store.policy = .noeviction ∧
          server.store.overLimit = true) ∧
        server.handle clock authed command =
          { server with commandsProcessed := server.commandsProcessed + 1 }.execute clock
            authed (serverName command) (received command)) := by
  cases command with
  | nil => exact Or.inl (quiet_of_same rfl rfl rfl rfl)
  | cons head args =>
      unfold handle
      dsimp only
      by_cases quit : upper (decodeAscii head) = "QUIT".toList
      · rw [if_pos quit]
        exact Or.inl (quiet_of_same rfl rfl rfl rfl)
      rw [if_neg quit]
      by_cases auth : upper (decodeAscii head) = "AUTH".toList
      · rw [if_pos auth]
        exact Or.inl (quiet_of_same rfl rfl rfl rfl)
      rw [if_neg auth]
      by_cases locked : authed = false
      · rw [if_pos locked]
        exact Or.inl (quiet_of_same rfl rfl rfl rfl)
      rw [if_neg locked]
      by_cases sync : upper (decodeAscii head) = "SYNC".toList
      · rw [if_pos sync]
        split <;> exact Or.inl (quiet_of_same rfl rfl rfl rfl)
      rw [if_neg sync]
      by_cases info : upper (decodeAscii head) = "INFO".toList
      · rw [if_pos info]
        exact Or.inl ⟨observes_sweep clock.monotonic server.store, rfl, rfl, rfl⟩
      rw [if_neg info]
      by_cases rewrite : upper (decodeAscii head) = "BGREWRITEAOF".toList
      · rw [if_pos rewrite]
        have frame := startRewrite_frame
          { server with commandsProcessed := server.commandsProcessed + 1 }
        exact Or.inl (quiet_of_same frame.1 frame.2.1 frame.2.2 rfl)
      rw [if_neg rewrite]
      by_cases readonly : server.replicaOf.isSome = true ∧
          isWriteCommand (upper (decodeAscii head)) = true
      · rw [if_pos readonly]
        exact Or.inl (quiet_of_same rfl rfl rfl rfl)
      rw [if_neg readonly]
      by_cases full : upper (decodeAscii head) ∈ DENYOOM ∧
          server.store.policy = .noeviction ∧ server.store.overLimit = true
      · rw [if_pos full]
        exact Or.inl (quiet_of_same rfl rfl rfl rfl)
      rw [if_neg full]
      exact Or.inr ⟨by simpa using locked, readonly, full, rfl⟩

theorem execute_next (clock : Clock) (server : Server) (authed : Bool) (name : Text)
    (command : List Arg) : (server.execute clock authed name command).next ≠ .syncing := by
  unfold execute
  cases dispatch clock server.store command with
  | mk result store =>
      cases result with
      | error raised => exact nofun
      | ok reply =>
          by_cases goes : reply.isError = false ∧ isWriteCommand name = true
          · simp only [if_pos goes]
            cases server.records clock (logs name server.store.writes store) command with
            | error raised => exact nofun
            | ok records => exact nofun
          · simp only [if_neg goes]
            exact nofun

/-- A turn that asks for the stream does nothing else. -/
theorem handle_of_syncing (clock : Clock) (server : Server) (authed : Bool)
    (command : List Bytes) (syncing : (server.handle clock authed command).next = .syncing) :
    (server.handle clock authed command).server.store = server.store ∧
      (server.handle clock authed command).propagated = [] := by
  cases command with
  | nil => cases syncing
  | cons head args =>
      revert syncing
      unfold handle
      dsimp only
      split_ifs <;> intro syncing
      all_goals first
        | exact (execute_next _ _ _ _ _ syncing).elim
        | exact ⟨rfl, rfl⟩
        | cases syncing

end Server

end Turns

end MiniCache
