import MiniCache.CopiedEvictions
import MiniCache.ReplyFrames

/-!
# An append to the log that fails

The store takes a write before its records and the deletions of the keys that it evicts are
appended to the log, and each of these is sent to the replicas after its append.  When an
append raises `OSError`, the handler closes the connection of the client: what was sent
stays sent, and what was stored stays stored.
-/

namespace MiniCache

open LruCache (Lagging change run)
open Store (weigh)

namespace Server

/-- What a turn leaves whose handler was ended by a failing append: the store and what the
replicas were sent. -/
structure FailedTurn where
  store : Store
  propagated : List (List Arg)

/-- The loop that appends the records; the append with the given number raises.  It leaves
the number of appends from here to the one that raises. -/
def appendRecords : Nat → List (List Arg) → Option Nat
  | failing, [] => some failing
  | 0, _ :: _ => none
  | failing + 1, _ :: rest => appendRecords failing rest

/-- The loop over the evicted keys: what it sends, and whether it comes to its end. -/
def tellEvictions : Nat → List Arg → List (List Arg) × Bool
  | _, [] => ([], true)
  | 0, _ :: _ => ([], false)
  | failing + 1, key :: rest =>
      let told := tellEvictions failing rest
      (evictionCommand key :: told.1, told.2)

/-- `execute` where the append with the given number raises `OSError`, unless the turn makes
fewer appends.  What the file holds afterwards is left open. -/
def executeFailing (clock : Clock) (server : Server) (name : Text) (command : List Arg)
    (failing : Nat) : Option FailedTurn :=
  match server.aof, dispatch clock server.store command with
  | some _, (.ok reply, store) =>
      if reply.isError = false ∧ isWriteCommand name = true then
        let logged := logs name server.store.writes store
        match server.records clock logged command with
        | .error _ => none
        | .ok records =>
            match appendRecords failing records with
            | none => some ⟨store, []⟩
            | some failing =>
                let drained := store.drainEvictions
                let told := tellEvictions failing drained.1
                if told.2 then none
                else
                  some ⟨drained.2,
                    (if logged then [toReplicationCommand command] else []) ++ told.1⟩
      else none
  | _, _ => none

theorem appendRecords_eq (failing : Nat) (records : List (List Arg)) :
    appendRecords failing records =
      if failing < records.length then none else some (failing - records.length) := by
  induction records generalizing failing with
  | nil => simp [appendRecords]
  | cons record rest ih =>
      cases failing with
      | zero => rfl
      | succ failing =>
          rw [appendRecords, ih, List.length_cons]
          simp only [Nat.add_lt_add_iff_right, Nat.add_sub_add_right]

theorem tellEvictions_eq (failing : Nat) (keys : List Arg) :
    tellEvictions failing keys =
      ((keys.take failing).map evictionCommand, decide (keys.length ≤ failing)) := by
  induction keys generalizing failing with
  | nil => simp [tellEvictions]
  | cons key rest ih =>
      cases failing with
      | zero => simp [tellEvictions]
      | succ failing => simp [tellEvictions, ih]

variable {clock : Clock} {server : Server} {name : Text} {command : List Arg} {failing : Nat}
  {failed : FailedTurn}

/-- The append that fails is one of a record, and nothing is sent, or one of a deletion, and
the form and the deletions before it are sent. -/
theorem executeFailing_cases
    (raised : server.executeFailing clock name command failing = some failed) :
    Accepted (dispatch clock server.store command).1 ∧ isWriteCommand name = true ∧
      ∃ forms, toAofCommands clock.time command = .ok forms ∧
        let store := (dispatch clock server.store command).2
        let logged := logs name server.store.writes store
        let records := if logged then forms.length else 0
        (failing < records ∧ failed = ⟨store, []⟩) ∨
          (records ≤ failing ∧ failing < records + store.evicted.length ∧
            failed = ⟨store.drainEvictions.2,
              (if logged then [toReplicationCommand command] else []) ++
                (store.evicted.take (failing - records)).map evictionCommand⟩) := by
  unfold executeFailing at raised
  cases aof : server.aof with
  | none =>
      rw [aof] at raised
      cases raised
  | some log =>
      rw [aof] at raised
      cases outcome : dispatch clock server.store command with
      | mk result store =>
          rw [outcome] at raised
          cases result with
          | error error => cases raised
          | ok reply =>
              simp only at raised ⊢
              by_cases goes : reply.isError = false ∧ isWriteCommand name = true
              swap
              · rw [if_neg goes] at raised
                cases raised
              have accepted : Accepted (dispatch clock server.store command).1 := by
                rw [outcome]
                exact goes.1
              obtain ⟨forms, recorded⟩ := toAofCommands_of_accepted accepted clock.time
              refine ⟨goes.1, goes.2, forms, recorded, ?_⟩
              rw [if_pos goes, records_ok _ recorded, aof] at raised
              simp only [Option.isSome_some, Bool.and_true, appendRecords_eq, tellEvictions_eq,
                Store.drainEvictions] at raised
              generalize logs name server.store.writes store = logged at raised ⊢
              have count : (if logged = true then forms else []).length =
                  if logged = true then forms.length else 0 := by
                split_ifs <;> rfl
              rw [count] at raised
              generalize (if logged = true then forms.length else 0) = records at raised ⊢
              by_cases early : failing < records
              · rw [if_pos early] at raised
                exact Or.inl ⟨early, (Option.some.inj raised).symm⟩
              · rw [if_neg early] at raised
                simp only [decide_eq_true_eq] at raised
                by_cases all : store.evicted.length ≤ failing - records
                · rw [if_pos all] at raised
                  cases raised
                · rw [if_neg all] at raised
                  exact Or.inr ⟨Nat.le_of_not_lt early, by omega, (Option.some.inj raised).symm⟩

/-- The turn that fails has sent a part of what it would have sent, and has stored what it
would have stored. -/
theorem executeFailing_prefix (authed : Bool)
    (raised : server.executeFailing clock name command failing = some failed) :
    let turn := server.execute clock authed name command
    failed.propagated <+: turn.propagated ∧ failed.store.data = turn.server.store.data := by
  obtain ⟨accepted, isWrite, forms, recorded, ends⟩ := executeFailing_cases raised
  obtain ⟨store, -, -, propagated⟩ :=
    execute_of_accepted clock server authed accepted isWrite recorded
  intro turn
  rw [show turn.propagated = _ from propagated, show turn.server.store = _ from store]
  rcases ends with ⟨-, rfl⟩ | ⟨-, -, rfl⟩
  · exact ⟨List.nil_prefix, rfl⟩
  · refine ⟨?_, rfl⟩
    rw [written, List.prefix_append_right_inj]
    exact (List.take_prefix _ _).map _

end Server

section Condition

/-- A `SET` that its options hold back. -/
def held (clock : Clock) (store : Store) (command : List Arg) : Bool :=
  match Command.ofCommand command, parseSet command.tail with
  | some .set, .ok opts => opts.blocked ((store.live clock.monotonic).get? opts.key).isSome
  | _, _ => false

/-- The number of records that an accepted write makes for the log. -/
def recordCount (clock : Clock) (store : Store) (command : List Arg) : Nat :=
  if held clock store command then 0
  else
    match toAofCommands clock.time command with
    | .error _ => 0
    | .ok records => records.length

/-- The value of a key. -/
def valueAt (dict : OrderedDict Arg Content) (key : Arg) : Option Arg :=
  (dict.get? key).map Prod.fst

/-- The form that is sent leaves a replica the value of the command: it is not a `SET` with
a lifetime that the replica refuses, unless the value is there. -/
def Arrives (clock : Clock) (store : Store) (command : List Arg) : Prop :=
  Unsendable command → ∀ opts, parseSet command.tail = .ok opts →
    valueAt (store.live clock.monotonic) opts.key = some opts.value

/-- The append with this number can fail without harm.  If it is that of a record, the
command, on the live contents in order of recency, leaves every key its value.  If it is
that of a deletion, then the deletions before it are of keys that the command leaves absent,
and of all of those that it evicts. -/
def Harmless (clock : Clock) (store : Store) (command : List Arg) (failing : Nat) : Prop :=
  let after := store.cacheAfter clock command
  let records := recordCount clock store command
  if failing < records then
    ∀ key, valueAt after.dict key =
      valueAt (store.live clock.monotonic) key
  else
    let told := (store.evicted ++ after.lost).take (failing - records)
    (held clock store command = false → Arrives clock store command) ∧
      (∀ key ∈ told, after.dict.get? key = none) ∧
      ∀ key ∈ after.lost, after.dict.get? key = none → key ∈ told

/-- A replica that takes what it was sent holds the values of the primary. -/
def InStep (clock : Clock) (failed : Server.FailedTurn) (replica : Store) : Prop :=
  ∀ key, valueAt (failed.store.live clock.monotonic) key =
    valueAt
      ((deliverAll clock failed.propagated replica).2.live clock.monotonic) key

variable {clock : Clock} {store : Store} {command : List Bytes} {found : Command}

/-- An accepted write is logged unless it is held back. -/
theorem logs_eq_not_held (accepted : Accepted (dispatch clock store (received command)).1)
    (ascii : AsciiNamed command) :
    Server.logs (serverName command) store.writes (dispatch clock store (received command)).2 =
      !held clock store (received command) := by
  obtain ⟨found, reply, known, done⟩ := accepted_known accepted
  cases logged : Server.logs (serverName command) store.writes
      (dispatch clock store (received command)).2 with
  | true =>
      unfold held
      rw [known]
      cases parsed : parseSet (received command).tail with
      | error raised => cases found <;> rfl
      | ok opts =>
          cases found with
          | set =>
              simp only
              rw [free_of_logged ascii logged known parsed, Bool.not_false]
          | _ => rfl
  | false =>
      obtain ⟨rfl, -⟩ := observes_of_unlogged ascii known logged
      obtain ⟨opts, parsed⟩ := parseSet_of_ok done
      have isName : serverName command = "SET".toList := serverName_of_asciiNamed ascii known
      simp only [Server.logs, isName, dispatch_store_of_set known] at logged
      rcases cmdSet_cases clock store (received command).tail with
        ⟨_, failed, -⟩ | ⟨other, _, otherParsed, blocked, -⟩ | ⟨other, _, otherParsed, -, -, left⟩
      · rw [parsed] at failed
        cases failed
      · unfold held
        rw [known, otherParsed]
        simp only
        rw [blocked, Bool.not_true]
      · rw [left] at logged
        have looked := (observes_afterLookup clock store other).writes
        rw [Store.set_eq, Store.evict_writes, Store.setCore_writes, looked] at logged
        simp at logged

theorem valueAt_eq_none_iff {dict : OrderedDict Arg Content} {key : Arg} :
    valueAt dict key = none ↔ dict.get? key = none :=
  Option.map_eq_none_iff

/-- A `SET` that goes through stores its value. -/
theorem get?_cacheAfter_set {opts : SetOptions}
    (isSet : Command.ofCommand (received command) = some .set)
    (parsed : parseSet (received command).tail = .ok opts)
    (free : held clock store (received command) = false) :
    ((store.cacheAfter clock (received command)).dict.get? opts.key).map Prod.fst =
      some opts.value := by
  unfold held at free
  rw [isSet, parsed] at free
  simp only at free
  have calls : commandCalls clock (store.live clock.monotonic) (received command) =
      opts.lookups ++ [.set opts.key opts.value opts.ttl] := by
    simp [commandCalls, isSet, Command.calls, parsed, SetOptions.calls, free]
  let looked := run (capOf store.maxmemory store.policy) weigh ⟨store.live clock.monotonic, []⟩
    (opts.lookups.map (Call.update clock.monotonic))
  have lives : Lives clock.monotonic looked.dict := (Store.lives store clock.monotonic).run
  have stored := @get?_change_set clock.monotonic looked.dict
    (capOf store.maxmemory store.policy) looked.lost lives opts.key opts.value opts.ttl
    fun ttl given => ((parseSet_ok parsed).2 ttl given).1
  rw [Store.cacheAfter, calls, List.map_append, LruCache.run_append]
  exact congrArg (Option.map Prod.fst) stored

/-- A replica refuses a `SET` with such a lifetime and keeps what it has. -/
theorem streams_unsendable (accepted : Accepted (dispatch clock store (received command)).1)
    (deliverable : Deliverable command) (ascii : AsciiNamed command)
    (unsendable : Unsendable (received command)) :
    Streams clock [toReplicationCommand (received command)] [] := by
  obtain ⟨known, amount, given, large⟩ := unsendable
  obtain ⟨opts, parsed⟩ := (accepted_set_iff known).mp accepted
  rw [Command.expiry, parsed] at given
  obtain ⟨ttl, lifetime, rfl⟩ := Option.map_eq_some_iff.mp given
  obtain ⟨positive, bounded, milliseconds, whole⟩ := (parseSet_ok parsed).2 ttl lifetime
  rw [whole, two_pow_le_intCast] at large
  have small : milliseconds < 2 ^ 63 * 1000 := by
    have : (milliseconds : Time) < 2 ^ 63 * 1000 := by rw [← whole]; linarith
    exact_mod_cast this
  have short : milliseconds.natAbs < 10 ^ 25 := by omega
  have rounded : max 1 (roundToEven (ttl * 1000)) = milliseconds := by
    rw [whole, roundToEven_intCast]
    omega
  obtain ⟨options, split⟩ := parseSet_args parsed
  have storable {arg : Arg} (member : arg ∈ (received command).tail) : Storable arg :=
    storable_of_mem deliverable.sizes (List.mem_of_mem_tail member)
  obtain ⟨key, keyEq, keySmall⟩ := storable (show opts.key ∈ _ by simp [split])
  obtain ⟨value, valueEq, valueSmall⟩ := storable (show opts.value ∈ _ by simp [split])
  rw [toReplicationCommand_of_set ascii known parsed, lifetime, keyEq, valueEq]
  dsimp only
  rw [rounded]
  let args : List Bytes :=
    [key, value, encodeUtf8 "PX".toList, encodeUtf8 (intText milliseconds)]
  have refused : parseSet (received args) = .error (.badArgument notAnInteger) := by
    have read := @parseSet_milliseconds (.bytes key) (.bytes value)
      (.bytes (encodeUtf8 "PX".toList)) (.bytes (encodeUtf8 (intText milliseconds))) milliseconds
      (by decide +kernel) (toText_intText milliseconds) (by omega)
      (short.trans_le (Nat.pow_le_pow_right (by decide) (by decide)))
    rwa [if_neg (by omega)] at read
  refine @streams_spelled clock _ .set trivial args _ rfl ?_ ?_ ?_ fun plain => ?_
  · simp only [args, List.length_cons, List.length_nil]
    decide
  · have unit : (encodeUtf8 "PX".toList).length ≤ MAX_BULK_LENGTH := by decide +kernel
    have digits : (encodeUtf8 (intText milliseconds)).length ≤ MAX_BULK_LENGTH := by
      rw [length_encodeUtf8_intText]
      exact (length_intText_le short (by decide)).trans (by decide)
    simpa [args] using ⟨keySmall, valueSmall, unit, digits⟩
  · change escaping (parseSet _) = false
    rw [refused]
    rfl
  · change setEffects clock.time plain _ = _
    rw [setEffects, refused]

/-- A command evicts keys that a client can name. -/
theorem storable_evicted (sound : store.Sound store.maxmemory store.policy)
    (storing : store.Storing) (deliverable : Deliverable command)
    (pending : ∀ key ∈ store.evicted, Storable key) :
    ∀ key ∈ (dispatch clock store (received command)).2.evicted, Storable key := by
  by_cases writes : ∃ found, Command.ofCommand (received command) = some found ∧ found.Writes
  · obtain ⟨found, known, writes⟩ := writes
    let copy : Store := { store with maxmemory := 0 }
    have lags := @lags_dispatch clock store copy (received command) sound rfl (fun _ => rfl) found
      known writes
    have storingCopy : (dispatch clock copy (received command)).2.Storing :=
      (reaches_dispatch fun _ => storable_of_mem deliverable.sizes).storing storing
    rw [(dispatch_cache sound clock (received command)).2]
    intro key member
    rcases List.mem_append.mp member with earlier | isLost
    · exact pending key earlier
    · obtain ⟨content, present⟩ := Option.ne_none_iff_exists'.mp (lags.owed key isLost)
      rw [← Store.live_plain] at present
      exact (storingCopy key content (ExpiringMap.live_eq_some_iff.mp present).1).1
  · have observes : Observes clock.monotonic store
        (dispatch clock store (received command)).2 :=
      observes_of_reads fun found known isWrite => writes ⟨found, known, isWrite⟩
    rw [observes.evicted]
    exact pending

theorem Reachable.tellable (reachable : Reachable store) : ∀ key ∈ store.evicted, Storable key := by
  induction reachable with
  | init maxmemory policy => exact List.forall_mem_nil _
  | dispatch clock reachable deliverable ih =>
      exact storable_evicted reachable.sound reachable.storing deliverable ih
  | @sweep store now _ ih =>
      rw [(Store.sweep_frame store).2.2.2]
      exact ih
  | drain _ _ => exact List.forall_mem_nil _

end Condition

section Failing

variable {clock : Clock} {server : Server} {replica : Store} {command : List Bytes}
  {failing : Nat} {failed : Server.FailedTurn}

/-- The deletions that arrive make the replica agree exactly when they are of the keys that
the primary has lost. -/
theorem inStep_iff_told {cache : LruCache Arg Content} {space : Arg → Option Content}
    {told : List Arg} (lags : Lagging cache space)
    (live : failed.store.live clock.monotonic = cache.dict)
    (delivered : ∀ key,
      valueAt ((deliverAll clock failed.propagated replica).2.live clock.monotonic) key =
        if key ∈ told then none else (space key).map Prod.fst) :
    InStep clock failed replica ↔
      (∀ key ∈ told, cache.dict.get? key = none) ∧
        ∀ key ∈ cache.lost, cache.dict.get? key = none → key ∈ told := by
  unfold InStep
  simp only [live, delivered]
  exact lags.agree_iff told Prod.fst

/-- A form that arrives, and deletions after it. -/
theorem get?_delivered {forms : List (List Arg)} {effects : List (ExpiringMap.Effect Arg Arg Time)}
    (uncapped : Uncapped replica) (streams : Streams clock forms effects) {told : List Arg}
    (storable : ∀ key ∈ told, Storable key) (key : Arg) :
    ((deliverAll clock (forms ++ told.map Server.evictionCommand) replica).2.live
        clock.monotonic).get? key =
      if key ∈ told then none
      else ExpiringMap.mapDeadline clock.toMonotonic (ExpiringMap.live clock.time
        (ExpiringMap.applyAll clock.time effects (replica.onWall clock) key)) := by
  obtain ⟨middle, arrives, represents⟩ := streams.acts (uncapped.represents clock)
  obtain ⟨after, done, told⟩ := get?_told represents storable
  rw [deliverAll_append arrives, done, told, represents.get?]

theorem delivered_told {forms : List (List Arg)} {effects : List (ExpiringMap.Effect Arg Arg Time)}
    (uncapped : Uncapped replica) (streams : Streams clock forms effects) {told : List Arg}
    (storable : ∀ key ∈ told, Storable key) (key : Arg) :
    valueAt ((deliverAll clock (forms ++ told.map Server.evictionCommand) replica).2.live
        clock.monotonic) key =
      if key ∈ told then none
      else (ExpiringMap.mapDeadline clock.toMonotonic (ExpiringMap.live clock.time
        (ExpiringMap.applyAll clock.time effects (replica.onWall clock) key))).map Prod.fst := by
  rw [valueAt, get?_delivered uncapped streams storable]
  split_ifs <;> rfl

theorem valueAt_congr {dict other : OrderedDict Arg Content} {key : Arg}
    (same : dict.get? key = other.get? key) : valueAt dict key = valueAt other key :=
  congrArg (Option.map Prod.fst) same

/-- What the form of a `SET` with too long a lifetime changes: nothing, and so the values
agree with those of the command when the value was there. -/
theorem value_of_arrives {store : Store} {opts : SetOptions} (uncapped : Uncapped replica)
    (equal : ∀ key,
      (replica.live clock.monotonic).get? key = (store.live clock.monotonic).get? key)
    (isSet : Command.ofCommand (received command) = some .set)
    (parsed : parseSet (received command).tail = .ok opts)
    (free : opts.blocked ((store.live clock.monotonic).get? opts.key).isSome = false)
    (there : valueAt (store.live clock.monotonic) opts.key = some opts.value) (key : Arg) :
    valueAt ((dispatch clock replica (received command)).2.live clock.monotonic) key =
      valueAt (replica.live clock.monotonic) key := by
  have represents := uncapped.represents clock
  have freeThere : opts.blocked (ExpiringMap.live clock.time
      (replica.onWall clock opts.key)).isSome = false := by
    rw [← represents.isSome, equal]
    exact free
  rw [valueAt, get?_dispatch uncapped, commandEffects_set isSet parsed freeThere, valueAt,
    represents.get?]
  rw [ExpiringMap.applyAll_cons, ExpiringMap.applyAll_nil]
  by_cases same : key = opts.key
  · subst same
    have before : valueAt (replica.live clock.monotonic) opts.key = some opts.value :=
      (valueAt_congr (equal opts.key)).trans there
    rw [valueAt, represents.get?] at before
    have lasts : ExpiringMap.Alive clock.time (opts.ttl.map (clock.time + ·)) :=
      alive_lifetime fun ttl given => ((parseSet_ok parsed).2 ttl given).1
    rw [before, ExpiringMap.Effect.apply_act_self, ExpiringMap.Action.apply,
      ExpiringMap.live_some_of_alive opts.value lasts]
    rfl
  · rw [ExpiringMap.Effect.apply_act_of_ne _ _ _ (Ne.symm same)]

/-- When an append fails, a replica that was equal to the primary before the command stays
in step if and only if this append can fail without harm. -/
theorem inStep_iff_harmless (reachable : Reachable server.store) (uncapped : Uncapped replica)
    (equal : ∀ key,
      (replica.live clock.monotonic).get? key = (server.store.live clock.monotonic).get? key)
    (deliverable : Deliverable command)
    (raised : server.executeFailing clock (serverName command) (received command) failing =
      some failed) :
    InStep clock failed replica ↔ Harmless clock server.store (received command) failing := by
  obtain ⟨accepted, isWrite, forms, recorded, ends⟩ := Server.executeFailing_cases raised
  have ascii := asciiNamed_of_isWriteCommand isWrite
  obtain ⟨found, reply, known, done⟩ := accepted_known accepted
  have writes : found.Writes := by
    rw [isWriteCommand_serverName ascii known] at isWrite
    exact of_decide_eq_true isWrite
  obtain ⟨live, evicted⟩ := dispatch_cache reachable.sound clock (received command)
  have logged := logs_eq_not_held accepted ascii
  have count : recordCount clock server.store (received command) =
      if (!held clock server.store (received command)) = true then forms.length else 0 := by
    rw [recordCount, recorded]
    cases held clock server.store (received command) <;> rfl
  have storable := @storable_evicted clock server.store command reachable.sound reachable.storing
    deliverable reachable.tellable
  simp only [logged, ← count] at ends
  rcases ends with ⟨early, rfl⟩ | ⟨late, -, rfl⟩
  · simp only [Harmless, if_pos early, InStep, deliverAll, live, valueAt, equal]
  · have notEarly := Nat.not_lt_of_le late
    have storableTold : ∀ key ∈ (server.store.evicted ++
        (server.store.cacheAfter clock (received command)).lost).take
          (failing - recordCount clock server.store (received command)), Storable key := by
      rw [← evicted]
      exact fun key member => storable key (List.mem_of_mem_take member)
    have represents := uncapped.represents clock
    rw [evicted]
    simp only [Harmless, if_neg notEarly]
    generalize (server.store.evicted ++
      (server.store.cacheAfter clock (received command)).lost).take
        (failing - recordCount clock server.store (received command)) = told at storableTold ⊢
    cases holds : held clock server.store (received command) with
    | true =>
        rw [holds] at logged
        obtain ⟨-, observes⟩ := observes_of_unlogged ascii known logged
        have lost : (server.store.cacheAfter clock (received command)).lost = [] :=
          List.append_right_eq_self.mp (evicted.symm.trans observes.evicted)
        have lags : Lagging (server.store.cacheAfter clock (received command))
            (replica.live clock.monotonic).get? := by
          refine ⟨fun key => Or.inl ?_, by simp [lost]⟩
          rw [← live, observes.view, equal]
        refine (@inStep_iff_told clock replica _ _ _ told lags live fun key => ?_).trans ?_
        · rw [represents.get?]
          exact delivered_told uncapped streams_nil storableTold key
        · simp
    | false =>
        rw [holds] at logged
        have free : ∀ opts, Command.ofCommand (received command) = some .set →
            parseSet (received command).tail = .ok opts →
              opts.blocked ((server.store.live clock.monotonic).get? opts.key).isSome = false :=
          fun opts isSet parsed => free_of_logged ascii logged isSet parsed
        have lags := @lags_dispatch clock server.store replica (received command) reachable.sound
          uncapped.unlimited equal found known writes
        by_cases unsendable : Unsendable (received command)
        · -- The replica refuses the form.
          have delivered (key : Arg) : valueAt ((deliverAll clock
              ([toReplicationCommand (received command)] ++ told.map Server.evictionCommand)
              replica).2.live clock.monotonic) key =
                if key ∈ told then none else valueAt (replica.live clock.monotonic) key := by
            rw [valueAt, valueAt, represents.get?]
            exact delivered_told uncapped
              (streams_unsendable accepted deliverable ascii unsendable) storableTold key
          obtain ⟨opts, parsed⟩ := (accepted_set_iff unsendable.1).mp accepted
          have unblocked := free opts unsendable.1 parsed
          have agrees (arrives : Arrives clock server.store (received command)) :=
            @inStep_iff_told clock replica
              ⟨(dispatch clock server.store (received command)).2.drainEvictions.2, _⟩ _ _ told lags
              live fun key => (delivered key).trans (by
                rw [← value_of_arrives uncapped equal unsendable.1 parsed unblocked
                  (arrives unsendable opts parsed) key]
                rfl)
          constructor
          · intro step
            have here := step opts.key
            have stored := get?_cacheAfter_set unsendable.1 parsed holds
            rw [← live] at stored
            have arrives : Arrives clock server.store (received command) := by
              intro _ other otherParsed
              obtain rfl := Except.ok.inj (parsed.symm.trans otherParsed)
              have value := (delivered opts.key).symm.trans (here.symm.trans stored)
              rw [← valueAt_congr (equal opts.key)]
              split_ifs at value
              exact value
            exact ⟨fun _ => arrives, (agrees arrives).mp step⟩
          · rintro ⟨arrives, names⟩
            exact (agrees (arrives rfl)).mpr names
        · have streams := @streams_toReplicationCommand clock server.store
            (replica.onWall clock) command found accepted deliverable ascii known writes
            (fun opts parsed isSet => by
              subst isSet
              rw [← represents.isSome, equal]
              exact free opts known parsed)
            (fun milliseconds given isSet => by
              subst isSet
              by_contra large
              exact unsendable ⟨known, milliseconds, given, not_lt.mp large⟩)
          refine (@inStep_iff_told clock replica _ _ _ told lags live fun key => ?_).trans ?_
          · rw [get?_dispatch uncapped]
            exact delivered_told uncapped streams storableTold key
          · exact ⟨fun names => ⟨fun _ sent => absurd sent unsendable, names⟩, And.right⟩

/-- A primary with an empty store and an empty log. -/
def loggingServer : Server := Server.init 0 .allkeysLru none (some .empty)

def deleteAbsent : List Bytes := [encodeUtf8 "DEL".toList, [107]]

theorem inStep_iff_harmless_deleteAbsent :
    ∃ failed, loggingServer.executeFailing .epoch (serverName deleteAbsent)
        (received deleteAbsent) 0 = some failed ∧
      InStep .epoch failed (.init 0 .allkeysLru) := by
  obtain ⟨failed, raised⟩ := Option.isSome_iff_exists.mp (show (loggingServer.executeFailing .epoch
    (serverName deleteAbsent) (received deleteAbsent) 0).isSome = true by decide +kernel)
  refine ⟨failed, raised, (inStep_iff_harmless (.init 0 .allkeysLru) (uncapped_init .allkeysLru)
    (fun _ => rfl) (by decide +kernel) raised).mpr ?_⟩
  rw [Harmless, if_pos (by decide +kernel)]
  have calls : commandCalls .epoch (loggingServer.store.live Clock.epoch.monotonic)
      (received deleteAbsent) = [.delete (.bytes [107])] := by
    decide +kernel
  intro key
  rw [Store.cacheAfter, calls]
  rfl

def setFresh : List Bytes := [encodeUtf8 "SET".toList, [107], [118]]

/-- The append of the only record fails: the primary keeps the key, and nothing is sent. -/
theorem not_inStep_setFresh :
    ∃ failed, loggingServer.executeFailing .epoch (serverName setFresh)
        (received setFresh) 0 = some failed ∧
      ¬ InStep .epoch failed (.init 0 .allkeysLru) := by
  let agrees (failed : Server.FailedTurn) : Bool :=
    valueAt (failed.store.live Clock.epoch.monotonic) (.bytes [107]) =
      valueAt ((deliverAll .epoch failed.propagated (.init 0 .allkeysLru)).2.live
        Clock.epoch.monotonic) (.bytes [107])
  have fails : (loggingServer.executeFailing .epoch (serverName setFresh)
      (received setFresh) 0).map agrees = some false := by
    decide +kernel
  obtain ⟨failed, raised, differs⟩ := Option.map_eq_some_iff.mp fails
  exact ⟨failed, raised, fun step => of_decide_eq_false differs (step (.bytes [107]))⟩

end Failing

end MiniCache
