import MiniCache.ReplicaStream

/-!
# The forms of a command

A write is sent to the replicas in one form, which they execute at once, and logged
in another, which is replayed at any later time.  Here either form is executed on a
store equal to the one that took the command, at the same instant, and the outcome
is compared with the outcome of the command itself.
-/

namespace MiniCache

open ExpiringMap (Cell Effect Action applyAll mapDeadline)

section Uncapped

/-- A store without a memory limit, from which nothing was ever evicted. -/
structure Uncapped (store : Store) : Prop where
  unlimited : store.maxmemory = 0
  drained : store.evicted = []

/-- The moment at which the wall clock reads what the monotonic clock reads. -/
def Clock.toWall (clock : Clock) (moment : Time) : Time :=
  moment - (clock.monotonic - clock.time)

/-- The cells of a store with their deadlines on the wall clock. -/
def Store.onWall (clock : Clock) (store : Store) : PlainMap :=
  fun key => mapDeadline clock.toWall (store.plain key)

variable {clock : Clock} {server : Server} {authed : Bool} {store : Store}

theorem mapDeadline_toWall (clock : Clock) (cell : Cell Arg Time) :
    mapDeadline clock.toMonotonic (mapDeadline clock.toWall cell) = cell := by
  rcases cell with _ | ⟨value, _ | deadline⟩
  · rfl
  · rfl
  · simp [mapDeadline, Clock.toMonotonic, Clock.toWall]

/-- An uncapped store represents its own cells. -/
theorem Uncapped.represents (uncapped : Uncapped store) (clock : Clock) :
    Represents clock store (store.onWall clock) := by
  refine ⟨uncapped.unlimited, uncapped.drained, fun key => ?_⟩
  rw [Store.onWall, mapDeadline_toWall]
  exact ExpiringMap.Purged.refl _ _

theorem uncapped_init (policy : Policy) : Uncapped (Store.init 0 policy) :=
  ⟨rfl, rfl⟩

theorem Uncapped.dispatched (uncapped : Uncapped store) (clock : Clock) (command : List Arg) :
    Uncapped (dispatch clock store command).2 :=
  have after := represents_dispatch (uncapped.represents clock) command
  ⟨after.unlimited, after.drained⟩

theorem Uncapped.observes {other : Store} {now : Time} (uncapped : Uncapped store)
    (observes : Observes now store other) : Uncapped other :=
  ⟨observes.maxmemory.trans uncapped.unlimited, observes.evicted.trans uncapped.drained⟩

theorem Uncapped.handle (uncapped : Uncapped server.store) (clock : Clock) (authed : Bool)
    (command : List Bytes) : Uncapped (server.handle clock authed command).server.store := by
  rcases Server.handle_cases clock server authed command with
    quiet | ⟨-, -, -, executes⟩
  · exact uncapped.observes quiet.observes
  have after := uncapped.dispatched clock (received command)
  let counted : Server := { server with commandsProcessed := server.commandsProcessed + 1 }
  rw [executes]
  by_cases goes : Accepted (dispatch clock server.store (received command)).1 ∧
      isWriteCommand (serverName command) = true
  · obtain ⟨records, recorded⟩ := toAofCommands_of_accepted goes.1 clock.time
    have turn := Server.execute_of_accepted clock counted authed goes.1 goes.2 recorded
    rw [turn.1, drain_of_nil after.drained]
    exact after
  · rw [(Server.execute_of_refused clock counted authed goes).1]
    exact after

/-- A server that starts without a limit keeps an uncapped store. -/
theorem uncapped_run (uncapped : Uncapped server.store) (run : List (Clock × ServerStep)) :
    Uncapped (server.run run).store := by
  induction run generalizing server with
  | nil => exact uncapped
  | cons first rest ih =>
      obtain ⟨clock, step⟩ := first
      refine ih ?_
      cases step with
      | command authed command => exact uncapped.handle clock authed command
      | sweep => exact uncapped.observes (observes_sweep clock.monotonic server.store)

end Uncapped

section Effective

variable {clock : Clock} {server : Server} {authed : Bool} {command : List Bytes}

/-- An accepted write that no option held back. -/
structure Effective (clock : Clock) (store : Store) (command : List Bytes) : Prop where
  accepted : Accepted (dispatch clock store (received command)).1
  ascii : AsciiNamed command
  known : ∃ found, Command.ofCommand (received command) = some found ∧ found.Writes
  free : ∀ opts, Command.ofCommand (received command) = some .set →
    parseSet (received command).tail = .ok opts →
      opts.blocked ((store.live clock.monotonic).get? opts.key).isSome = false

/-- What a server without a memory limit logs and propagates is effective. -/
theorem Server.Logs.effective (logs : server.Logs clock authed command)
    (uncapped : Uncapped server.store) : Effective clock server.store command := by
  unfold Server.Logs at logs
  let counted : Server := { server with commandsProcessed := server.commandsProcessed + 1 }
  rcases Server.handle_cases clock server authed command with
    quiet | ⟨-, -, -, executes⟩
  · exact absurd quiet.propagated logs
  rw [executes] at logs
  have goes : Accepted (dispatch clock server.store (received command)).1 ∧
      isWriteCommand (serverName command) = true := by
    by_contra refused
    exact logs (Server.execute_of_refused clock counted authed refused).2
  obtain ⟨accepted, isWrite⟩ := goes
  obtain ⟨records, recorded⟩ := toAofCommands_of_accepted accepted clock.time
  have turn := Server.execute_of_accepted clock counted authed accepted isWrite recorded
  rw [turn.2.2.2] at logs
  have drained : (dispatch clock counted.store (received command)).2.evicted = [] :=
    (uncapped.dispatched clock (received command)).drained
  simp only [Server.written, drained, List.map_nil, List.append_nil] at logs
  have ascii := asciiNamed_of_isWriteCommand isWrite
  obtain ⟨found, reply, known, -⟩ := accepted_known accepted
  refine ⟨accepted, ascii, ⟨found, known, ?_⟩, ?_⟩
  · rw [isWriteCommand_serverName ascii known] at isWrite
    exact of_decide_eq_true isWrite
  · intro opts isSet parsed
    refine free_of_logged ascii ?_ isSet parsed
    by_contra unlogged
    exact logs (if_neg unlogged)

end Effective

section Handlers

variable {clock : Clock} {store : Store} {args : List Arg}

theorem accepted_of_known {command : List Arg} {found : Command} {reply : Value}
    (known : Command.ofCommand command = some found)
    (done : (found.handler clock store command.tail).1 = .ok reply) :
    Accepted (dispatch clock store command).1 := by
  obtain ⟨name, dispatched⟩ := dispatch_of_known known clock store
  rw [dispatched, accepted_replyTo_iff]
  exact ⟨reply, done⟩

/-- A `SET` is accepted as soon as its arguments parse. -/
theorem cmdSet_ok {opts : SetOptions} (parsed : parseSet args = .ok opts) :
    ∃ reply, (cmdSet clock store args).1 = .ok reply := by
  rcases cmdSet_cases clock store args with
    ⟨raised, failed, -⟩ | ⟨_, previous, -, -, done⟩ | ⟨_, reply, -, -, -, done⟩
  · rw [parsed] at failed
    cases failed
  · exact ⟨_, by rw [done]⟩
  · exact ⟨reply, by rw [done]⟩

theorem accepted_set_iff {command : List Arg}
    (known : Command.ofCommand command = some .set) :
    Accepted (dispatch clock store command).1 ↔
      ∃ opts, parseSet command.tail = .ok opts := by
  constructor
  · intro accepted
    obtain ⟨found, reply, knownAgain, done⟩ := accepted_known accepted
    cases known.symm.trans knownAgain
    exact parseSet_of_ok done
  · rintro ⟨opts, parsed⟩
    obtain ⟨reply, done⟩ := @cmdSet_ok clock store _ _ parsed
    exact accepted_of_known known done

theorem ofCommand_ofString {literal : String} {found : Command}
    (spelled : Command.ofName (upper literal.toList) = some found) (args : List Arg) :
    Command.ofCommand (.ofString literal :: args) = some found :=
  spelled

theorem ofCommand_set (args : List Arg) :
    Command.ofCommand (.ofString "SET" :: args) = some .set :=
  ofCommand_ofString (by decide +kernel) args

end Handlers

section ReplicationForm

/-- The form is accepted on an equal store as well and leaves the same live contents. -/
def SameOutcome (clock : Clock) (store : Store) (command form : List Arg) : Prop :=
  Accepted (dispatch clock store form).1 ∧
    ∀ key, ((dispatch clock store form).2.live clock.monotonic).get? key =
      ((dispatch clock store command).2.live clock.monotonic).get? key

/-- A `SET` with a lifetime of 2^63 milliseconds or more. -/
def Unsendable (command : List Arg) : Prop :=
  Command.ofCommand command = some .set ∧
    ∃ milliseconds ∈ Command.set.expiry command.tail, 2 ^ 63 ≤ milliseconds

variable {clock : Clock} {store : Store} {command : List Bytes}

theorem get?_dispatch (uncapped : Uncapped store) (form : List Arg) (key : Arg) :
    ((dispatch clock store form).2.live clock.monotonic).get? key =
      mapDeadline clock.toMonotonic (ExpiringMap.live clock.time
        (applyAll clock.time (commandEffects clock.time (store.onWall clock) form)
          (store.onWall clock) key)) :=
  (represents_dispatch (uncapped.represents clock) form).get? key

/-- Accepted forms with the effects of the command have its outcome. -/
theorem sameOutcome_of_effects {form : List Arg} (uncapped : Uncapped store)
    (accepted : Accepted (dispatch clock store form).1)
    (same : commandEffects clock.time (store.onWall clock) form =
      commandEffects clock.time (store.onWall clock) (received command)) :
    SameOutcome clock store (received command) form := by
  refine ⟨accepted, fun key => ?_⟩
  rw [get?_dispatch uncapped, get?_dispatch uncapped, same]

/-- The effects of a `SET` that goes through. -/
theorem commandEffects_set {form : List Arg} {opts : SetOptions}
    (known : Command.ofCommand form = some .set) (parsed : parseSet form.tail = .ok opts)
    {plain : PlainMap}
    (free : opts.blocked (ExpiringMap.live clock.time (plain opts.key)).isSome = false) :
    commandEffects clock.time plain form =
      [.act opts.key (.write opts.value (opts.ttl.map (clock.time + ·)))] := by
  simp [commandEffects, known, Command.effects, setEffects, parsed, free]

theorem Effective.commandEffects (effective : Effective clock store command)
    (uncapped : Uncapped store) {opts : SetOptions}
    (isSet : Command.ofCommand (received command) = some .set)
    (parsed : parseSet (received command).tail = .ok opts) :
    commandEffects clock.time (store.onWall clock) (received command) =
      [.act opts.key (.write opts.value (opts.ttl.map (clock.time + ·)))] := by
  refine commandEffects_set isSet parsed ?_
  rw [← (uncapped.represents clock).isSome]
  exact effective.free opts isSet parsed

theorem toReplicationCommand_of_ne_set {found : Command} (ascii : AsciiNamed command)
    (known : Command.ofCommand (received command) = some found) (different : found ≠ .set) :
    toReplicationCommand (received command) = received command := by
  cases command with
  | nil => cases known
  | cons head args =>
      rw [received, List.map_cons, toReplicationCommand,
        if_neg (mt (namesSet_iff ascii known).mp different)]

theorem toReplicationCommand_of_set {opts : SetOptions} (ascii : AsciiNamed command)
    (isSet : Command.ofCommand (received command) = some .set)
    (parsed : parseSet (received command).tail = .ok opts) :
    toReplicationCommand (received command) =
      [.ofString "SET", opts.key, opts.value] ++
        match opts.ttl with
        | none => []
        | some ttl => [.ofString "PX", .ofInt (max 1 (roundToEven (ttl * 1000)))] := by
  cases command with
  | nil => cases isSet
  | cons head args =>
      exact toReplicationCommand_set ((namesSet_iff ascii isSet).mpr rfl) parsed

/-- What `SET` makes of a number of milliseconds. -/
theorem parseSet_milliseconds (key value : Arg) {unit amount : Arg} {milliseconds : Int}
    (named : toText unit = "PX".toList) (spelled : toText amount = intText milliseconds)
    (positive : 0 < milliseconds) (short : milliseconds.natAbs < 10 ^ maxStrDigits) :
    parseSet [key, value, unit, amount] =
      if milliseconds < 2 ^ 63 then
        .ok ⟨key, value, false, false, false, some (milliseconds / 1000)⟩
      else .error (.badArgument notAnInteger) := by
  have read := parseInt_of_toText spelled short
  rw [parseSet_unit key value named]
  by_cases inRange : InInt64 milliseconds
  · rw [if_pos inRange] at read
    rw [parseTtl_px read positive, if_pos (by unfold InInt64 at inRange; omega)]
  · rw [if_neg inRange] at read
    rw [parseTtl, read, if_neg (by unfold InInt64 at inRange; omega)]

theorem two_pow_le_intCast {number : Int} : (2 : Time) ^ 63 ≤ number ↔ 2 ^ 63 ≤ number := by
  norm_cast

/-- The replication form of an effective write has its outcome, unless its lifetime
no longer fits when it is counted in milliseconds. -/
theorem sameOutcome_toReplicationCommand_iff (uncapped : Uncapped store)
    (effective : Effective clock store command) :
    SameOutcome clock store (received command) (toReplicationCommand (received command)) ↔
      ¬ Unsendable (received command) := by
  obtain ⟨found, known, -⟩ := effective.known
  by_cases isSet : found = .set
  swap
  · rw [toReplicationCommand_of_ne_set effective.ascii known isSet]
    refine iff_of_true (sameOutcome_of_effects uncapped effective.accepted rfl) ?_
    rintro ⟨named, -⟩
    exact isSet (Option.some.inj (known.symm.trans named))
  subst isSet
  obtain ⟨opts, parsed⟩ := (accepted_set_iff known).mp effective.accepted
  have expiry : Command.set.expiry (received command).tail = opts.ttl.map (· * 1000) := by
    rw [Command.expiry, parsed]
  have effects := effective.commandEffects uncapped known parsed
  rw [toReplicationCommand_of_set effective.ascii known parsed]
  -- A plain `SET` with these options is never held back.
  have accepts {ttl : Option Time} {options : List Arg}
      (read : parseSet (opts.key :: opts.value :: options) =
        .ok ⟨opts.key, opts.value, false, false, false, ttl⟩) (same : opts.ttl = ttl) :
      SameOutcome clock store (received command)
        ([.ofString "SET", opts.key, opts.value] ++ options) := by
    have named := ofCommand_set (opts.key :: opts.value :: options)
    refine sameOutcome_of_effects uncapped ((accepted_set_iff named).mpr ⟨_, read⟩) ?_
    rw [effects, same]
    exact commandEffects_set named read rfl
  cases lifetime : opts.ttl with
  | none =>
      refine iff_of_true (accepts rfl lifetime) ?_
      rintro ⟨-, milliseconds, member, -⟩
      rw [expiry, lifetime] at member
      cases member
  | some ttl =>
      obtain ⟨positive, bounded, milliseconds, whole⟩ := (parseSet_ok parsed).2 ttl lifetime
      have atLeast : 0 < milliseconds := by
        have : (0 : Time) < milliseconds := by rw [← whole]; positivity
        exact_mod_cast this
      have small : milliseconds < 2 ^ 63 * 1000 := by
        have : (milliseconds : Time) < 2 ^ 63 * 1000 := by rw [← whole]; linarith
        exact_mod_cast this
      have short : milliseconds.natAbs < 10 ^ maxStrDigits :=
        lt_of_lt_of_le (show milliseconds.natAbs < 10 ^ 25 by omega)
          (Nat.pow_le_pow_right (by decide) (by decide))
      have ttlEq : ttl = milliseconds / 1000 := by rw [← whole]; ring
      have rounded : max 1 (roundToEven (ttl * 1000)) = milliseconds := by
        rw [whole, roundToEven_intCast]
        omega
      have unsendable : Unsendable (received command) ↔ ¬ milliseconds < 2 ^ 63 := by
        have member : Command.set.expiry (received command).tail = some (milliseconds : Time) := by
          rw [expiry, lifetime, ← whole]
          rfl
        rw [Unsendable, member, not_lt, ← two_pow_le_intCast]
        simp [known]
      have read := @parseSet_milliseconds opts.key opts.value (.ofString "PX")
        (.ofInt milliseconds) milliseconds rfl rfl atLeast short
      dsimp only
      rw [rounded, unsendable, not_not]
      constructor
      · rintro ⟨accepted, -⟩
        by_contra large
        rw [if_neg large] at read
        have named := ofCommand_set
          [opts.key, opts.value, .ofString "PX", .ofInt milliseconds]
        obtain ⟨other, otherParsed⟩ := (accepted_set_iff named).mp accepted
        cases read.symm.trans otherParsed
      · intro fits
        rw [if_pos fits] at read
        exact accepts read (lifetime.trans (congrArg some ttlEq))

/-- The form that a server without a memory limit sends to its replicas has the
outcome of the command, unless its lifetime has 2^63 milliseconds or more. -/
theorem sent_form_faithful {server : Server} {authed : Bool}
    (uncapped : Uncapped server.store) (logs : server.Logs clock authed command) :
    SameOutcome clock server.store (received command)
        (toReplicationCommand (received command)) ↔ ¬ Unsendable (received command) :=
  sameOutcome_toReplicationCommand_iff uncapped (logs.effective uncapped)

/-- A server with an empty store. -/
def emptyServer : Server := Server.init 0 .allkeysLru none none

def shortSet : List Bytes :=
  [encodeUtf8 "SET".toList, [107], [118], encodeUtf8 "px".toList, encodeUtf8 "1".toList,
    encodeUtf8 "nx".toList]

theorem sent_form_faithful_shortSet :
    SameOutcome .epoch emptyServer.store (received shortSet)
        (toReplicationCommand (received shortSet)) ↔ ¬ Unsendable (received shortSet) :=
  @sent_form_faithful .epoch shortSet emptyServer true (uncapped_init .allkeysLru)
    (by decide +kernel)

/-- The greatest number of seconds. -/
def longestSet : List Bytes :=
  [encodeUtf8 "SET".toList, [107], [118], encodeUtf8 "EX".toList,
    encodeUtf8 "9223372036854775807".toList]

theorem not_sameOutcome_longestSet :
    emptyServer.Logs .epoch true longestSet ∧
      ¬ SameOutcome .epoch emptyServer.store (received longestSet)
        (toReplicationCommand (received longestSet)) :=
  ⟨by decide +kernel, fun same => absurd same.1 (by decide +kernel)⟩

end ReplicationForm

end MiniCache
