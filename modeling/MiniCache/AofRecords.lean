import MiniCache.AofRepair
import MiniCache.ExpiringCopies
import MiniCache.ServerTurns

/-!
# The records of the log

What the log tells of an accepted command.  The records of one command, dispatched
at any later moment, have the effects that the command had, with deadlines that are
rounded to whole milliseconds and with conditions resolved.
-/

namespace MiniCache

open ExpiringMap (Effect Action applyAll EffectTracks ActionTracks Lone)

section Deadlines

/-- Less than a millisecond apart. -/
def Near (first second : Time) : Prop := |first - second| < 1 / 1000

theorem near_refl (moment : Time) : Near moment moment := by
  simp [Near]

/-- A number of milliseconds as a reading of the wall clock. -/
def ofMs (milliseconds : Int) : Time := (milliseconds : Time) / 1000

theorem near_deadlineMs (time ttl : Time) : Near (time + ttl) (ofMs (deadlineMs time ttl)) := by
  have rounded := abs_le.mp (abs_roundToEven_sub ((time + ttl) * 1000))
  unfold Near ofMs deadlineMs
  rw [abs_lt]
  constructor <;> linarith

theorem near_truncate (time : Time) (milliseconds : Int) :
    Near (time + (milliseconds : Time) / 1000)
      (ofMs (truncateToInt (time * 1000) + milliseconds)) := by
  have truncated := abs_lt.mp (abs_truncateToInt_sub (time * 1000))
  unfold Near ofMs
  push_cast
  rw [abs_lt]
  constructor <;> linarith

/-- A deadline that the log can hold in full. -/
def Loggable (milliseconds : Int) : Prop := milliseconds.natAbs < 10 ^ 25

theorem loggable_of_abs {milliseconds : Int} (small : |(milliseconds : Time)| < 10 ^ 25) :
    Loggable milliseconds := by
  have bound : |milliseconds| < 10 ^ 25 := by exact_mod_cast small
  rw [Int.abs_eq_natAbs] at bound
  exact_mod_cast bound

theorem loggable_deadlineMs (clock : Clock) {ttl : Time} (small : |ttl| ≤ 2 ^ 63) :
    Loggable (deadlineMs clock.time ttl) := by
  have rounded := abs_le.mp (abs_roundToEven_sub ((clock.time + ttl) * 1000))
  have lifetime := abs_le.mp small
  have lower := clock.lower
  have upper := clock.upper
  apply loggable_of_abs
  unfold deadlineMs
  rw [abs_lt]
  constructor <;> linarith

theorem loggable_truncate (clock : Clock) {milliseconds : Int} (small : InInt64 milliseconds) :
    Loggable (truncateToInt (clock.time * 1000) + milliseconds) := by
  have truncated := abs_lt.mp (abs_truncateToInt_sub (clock.time * 1000))
  have lower := clock.lower
  have upper := clock.upper
  have least : (-(2 ^ 63) : Time) ≤ milliseconds := by exact_mod_cast small.1
  have greatest : (milliseconds : Time) ≤ 2 ^ 63 - 1 := by exact_mod_cast small.2
  apply loggable_of_abs
  push_cast
  rw [abs_lt]
  constructor <;> linarith

theorem length_intText_of_loggable {milliseconds : Int} (loggable : Loggable milliseconds) :
    (intText milliseconds).length ≤ 26 :=
  length_intText_le loggable (by decide)

end Deadlines

section LoggedEffects

/-- The effects of an accepted `SET` as the log tells them. -/
def loggedSet (time : Time) (found : Arg → Bool) (args : List Arg) :
    List (Effect Arg Arg Time) :=
  match parseSet args with
  | .error _ => []
  | .ok opts =>
      if opts.blocked (found opts.key) then []
      else
        let deadline := opts.ttl.map fun ttl => ofMs (deadlineMs time ttl)
        [.act opts.key (.write opts.value deadline)]

/-- The effects of a lifetime command, with the milliseconds that are logged. -/
def loggedLifetime (deadline : Int → Int) : List Arg → List (Effect Arg Arg Time)
  | [key, amount] =>
      match parseInt amount with
      | .error _ => []
      | .ok number => [.act key (.setDeadline (ofMs (deadline number)))]
  | _ => []

/-- The effects of a command as its records tell them, given which keys it finds
live. -/
def loggedEffects (time : Time) (found : Arg → Bool) (command : List Arg) :
    List (Effect Arg Arg Time) :=
  match Command.ofCommand command with
  | none => []
  | some .set => loggedSet time found command.tail
  | some .expire => loggedLifetime (fun seconds => deadlineMs time seconds) command.tail
  | some .pexpire =>
      loggedLifetime (fun milliseconds => truncateToInt (time * 1000) + milliseconds)
        command.tail
  | some other => other.effects time (fun _ => none) command.tail

/-- Commands whose effects depend on their arguments only. -/
def Command.Verbatim : Command → Prop
  | .set | .expire | .pexpire => False
  | _ => True

theorem effects_of_verbatim {command : Command} (verbatim : command.Verbatim)
    (time other : Time) (plain otherPlain : PlainMap) (args : List Arg) :
    command.effects time plain args = command.effects other otherPlain args := by
  cases command <;> first | rfl | exact verbatim.elim

theorem effectTracks_refl (effect : Effect Arg Arg Time) : EffectTracks Near effect effect := by
  cases effect with
  | act key action => exact .act key (ExpiringMap.actionTracks_refl near_refl action)
  | flush => exact .flush

theorem tracks_loggedLifetime {time perSecond : Time} {deadline : Int → Int}
    (close : ∀ number : Int, Near (time + number / perSecond) (ofMs (deadline number)))
    (args : List Arg) :
    List.Forall₂ (EffectTracks Near) (lifetimeEffects perSecond time args)
      (loggedLifetime deadline args) := by
  match args with
  | [key, amount] =>
      simp only [lifetimeEffects, loggedLifetime]
      cases parseInt amount with
      | error raised => exact List.Forall₂.nil
      | ok number =>
          exact List.Forall₂.cons (.act key (.setDeadline (close number))) List.Forall₂.nil
  | [] | [_] | _ :: _ :: _ :: _ => exact List.Forall₂.nil

/-- The log tells the effects with deadlines that are a millisecond off at most. -/
theorem tracks_loggedEffects {time : Time} {plain : PlainMap} {found : Arg → Bool}
    (finds : ∀ key, found key = (ExpiringMap.live time (plain key)).isSome)
    (command : List Arg) :
    List.Forall₂ (EffectTracks Near) (commandEffects time plain command)
      (loggedEffects time found command) := by
  unfold commandEffects loggedEffects
  cases Command.ofCommand command with
  | none => exact List.Forall₂.nil
  | some known =>
      have same (verbatim : known.Verbatim) :
          List.Forall₂ (EffectTracks Near) (known.effects time plain command.tail)
            (known.effects time (fun _ => none) command.tail) := by
        rw [effects_of_verbatim verbatim time time plain fun _ => none]
        exact List.forall₂_same.mpr fun effect _ => effectTracks_refl effect
      cases known with
      | set =>
          simp only [Command.effects, setEffects, loggedSet, finds]
          cases parseSet _ with
          | error raised => exact List.Forall₂.nil
          | ok opts =>
              dsimp only
              split_ifs
              · exact List.Forall₂.nil
              · refine List.Forall₂.cons (.act _ (.write _ ?_)) List.Forall₂.nil
                cases opts.ttl with
                | none => exact Option.Rel.none
                | some ttl => exact Option.Rel.some (near_deadlineMs time ttl)
      | expire =>
          refine tracks_loggedLifetime (fun number => ?_) command.tail
          rw [div_one]
          exact near_deadlineMs time number
      | pexpire => exact tracks_loggedLifetime (near_truncate time) command.tail
      | mset | incr | decr | incrby | decrby | del | pexpireat | persist | flushdb | ping
      | echo | get | mget | existsKey | ttl | keys | dbsize => exact same trivial

theorem lone_of_length {effects : List (Effect Arg Arg Time)} (short : effects.length ≤ 1) :
    Lone effects :=
  Or.inl short

theorem pairWrites_blind (pairs : List Arg) : ∀ effect ∈ pairWrites pairs, ¬ effect.Reads := by
  induction pairs using pairWrites.induct with
  | case1 key value rest ih =>
      rw [pairWrites]
      intro effect member
      rcases List.mem_cons.mp member with rfl | inRest
      · exact not_false
      · exact ih effect inRest
  | case2 rest single =>
      rw [pairWrites]
      · simp
      · exact single

/-- Commands with several effects only write and delete. -/
theorem lone_loggedEffects (time : Time) (found : Arg → Bool) (command : List Arg) :
    Lone (loggedEffects time found command) := by
  have counterCase (sign : Int) (args : List Arg) : Lone (counterByEffects sign args) := by
    apply lone_of_length
    unfold counterByEffects
    split
    · split <;> simp
    · simp
  have lifetimeCase (deadline : Int → Int) (args : List Arg) :
      Lone (loggedLifetime deadline args) := by
    apply lone_of_length
    unfold loggedLifetime
    split
    · split <;> simp
    · simp
  unfold loggedEffects
  split
  · exact lone_of_length (by simp)
  · apply lone_of_length
    unfold loggedSet
    split
    · simp
    · split_ifs <;> simp
  · exact lifetimeCase _ _
  · exact lifetimeCase _ _
  · rename_i other _ _ _ _
    cases other with
    | mset =>
        simp only [Command.effects]
        split_ifs
        · exact lone_of_length (by simp)
        · exact Or.inr (pairWrites_blind _)
    | del =>
        right
        intro effect member
        obtain ⟨key, -, rfl⟩ := List.mem_map.mp member
        exact not_false
    | incr | decr =>
        apply lone_of_length
        simp only [Command.effects, counterEffects]
        split <;> simp
    | incrby | decrby => exact counterCase _ _
    | pexpireat =>
        apply lone_of_length
        simp only [Command.effects, deadlineEffects]
        split
        · split
          · simp
          · split_ifs <;> simp
        · simp
    | persist | flushdb =>
        apply lone_of_length
        simp only [Command.effects, persistEffects, flushEffects]
        split <;> simp
    | set | expire | pexpire => contradiction
    | ping | echo | get | mget | existsKey | ttl | keys | dbsize =>
        exact lone_of_length (by simp [Command.effects])

end LoggedEffects

section Records

/-- A record as a replay reads it back. -/
def sent (record : List Arg) : List Bytes := record.map Arg.wire

theorem sent_received (command : List Bytes) : sent (received command) = command :=
  map_wire_received command

theorem encodeCommand_sent (record : List Arg) :
    encodeCommand (received (sent record)) = encodeCommand record := by
  rw [encodeCommand_eq, encodeCommand_eq, received, map_wire_received, sent, List.length_map,
    List.length_map]

theorem flatMap_encodeCommand (records : List (List Arg)) :
    records.flatMap encodeCommand = logOf (records.map sent) := by
  rw [logOf, List.flatMap_map]
  simp only [encodeCommand_sent]

/-- A part of a log whose replay has these effects, whenever it takes place. -/
structure LogTells (records : List (List Bytes)) (effects : List (Effect Arg Arg Time)) :
    Prop where
  sendable : Sendable records
  fine : ∀ record ∈ records, raises (received record) = false
  acts : ∀ {clock : Clock} {store : Store} {plain : PlainMap}, Represents clock store plain →
    Represents clock (dispatchAll clock records store) (applyAll clock.time effects plain)

theorem logTells_nil : LogTells [] [] :=
  ⟨by simp [Sendable], by simp, id⟩

theorem LogTells.append {first second : List (List Bytes)}
    {effects later : List (Effect Arg Arg Time)} (tells : LogTells first effects)
    (tellsLater : LogTells second later) : LogTells (first ++ second) (effects ++ later) := by
  refine ⟨tells.sendable.append tellsLater.sendable, ?_, ?_⟩
  · intro record member
    rcases List.mem_append.mp member with inFirst | inSecond
    · exact tells.fine record inFirst
    · exact tellsLater.fine record inSecond
  · intro clock store plain represents
    rw [dispatchAll, List.foldl_append, ExpiringMap.applyAll_append]
    exact tellsLater.acts (tells.acts represents)

/-- One record whose effects depend on nothing else. -/
theorem logTells_single {record : List Bytes} {effects : List (Effect Arg Arg Time)}
    (nonempty : record ≠ []) (deliverable : Deliverable record)
    (fine : raises (received record) = false)
    (effectsEq : ∀ time plain, commandEffects time plain (received record) = effects) :
    LogTells [record] effects := by
  refine ⟨by simpa [Sendable] using ⟨nonempty, deliverable⟩, by simpa using fine, ?_⟩
  intro clock store plain represents
  rw [← effectsEq clock.time plain]
  exact represents_dispatch represents (received record)

/-- The name of a command, as the program spells it, is read back as that command. -/
theorem ofCommand_name (command : Command) (args : List Arg) :
    Command.ofCommand (.bytes (encodeUtf8 command.name) :: args) = some command := by
  have upperName : upper command.name = command.name := by
    cases command <;> decide +kernel
  rw [Command.ofCommand, toText, decodeUtf8_encodeUtf8, upperName]
  exact Command.ofName_eq_some_iff.mpr rfl

/-- A record of the program's own spelling. -/
theorem logTells_record (command : Command) {args : List Bytes}
    {effects : List (Effect Arg Arg Time)} (count : args.length < MAX_ARRAY_LENGTH)
    (sizes : ∀ data ∈ args, data.length ≤ MAX_BULK_LENGTH)
    (fine : command.raises (received args) = false)
    (effectsEq : ∀ time plain, command.effects time plain (received args) = effects) :
    LogTells [encodeUtf8 command.name :: args] effects := by
  have known := ofCommand_name command (received args)
  refine logTells_single (List.cons_ne_nil _ _) ⟨count, ?_⟩ ?_ ?_
  · intro data member
    rcases List.mem_cons.mp member with rfl | inArgs
    · cases command <;> decide +kernel
    · exact sizes data inArgs
  · exact (raises_of_known known).trans fine
  · intro time plain
    rw [commandEffects, show Command.ofCommand (received (encodeUtf8 command.name :: args)) =
      some command from known]
    exact effectsEq time plain

theorem logTells_set {key value : Bytes} (keySmall : key.length ≤ MAX_BULK_LENGTH)
    (valueSmall : value.length ≤ MAX_BULK_LENGTH) :
    LogTells [sent [.ofString "SET", .bytes key, .bytes value]]
      [.act (.bytes key) (.write (.bytes value) none)] := by
  refine @logTells_record .set [key, value] _ ?_ ?_ rfl fun time plain => rfl
  · simp only [List.length_cons, List.length_nil]
    decide
  · simpa using ⟨keySmall, valueSmall⟩

theorem not_quotientOverflows_of_loggable {milliseconds : Int} (loggable : Loggable milliseconds) :
    ¬ QuotientOverflows milliseconds := by
  unfold Loggable at loggable
  unfold QuotientOverflows
  have large : 10 ^ 25 ≤ 1000 * (2 ^ 1024 - 2 ^ 970 : Nat) := by decide +kernel
  omega

theorem logTells_deadline {key : Bytes} (keySmall : key.length ≤ MAX_BULK_LENGTH)
    {milliseconds : Int} (loggable : Loggable milliseconds) :
    LogTells [sent (deadlineRecord (.bytes key) milliseconds)]
      [.act (.bytes key) (.setDeadline (ofMs milliseconds))] := by
  have small : milliseconds.natAbs < 10 ^ maxStrDigits :=
    lt_of_lt_of_le loggable (Nat.pow_le_pow_right (by decide) (by decide))
  have read : intOfText (toText (.bytes (encodeUtf8 (intText milliseconds)))) =
      some milliseconds := by
    rw [toText, decodeUtf8_encodeUtf8, intOfText_intText small]
  have fits := not_quotientOverflows_of_loggable loggable
  refine @logTells_record .pexpireat [key, encodeUtf8 (intText milliseconds)] _ ?_ ?_ ?_
    fun time plain => ?_
  · simp only [List.length_cons, List.length_nil]
    decide
  · have short := length_intText_of_loggable loggable
    have digits : (encodeUtf8 (intText milliseconds)).length ≤ MAX_BULK_LENGTH := by
      rw [length_encodeUtf8_intText]
      exact short.trans (by decide)
    simpa using ⟨keySmall, digits⟩
  · simp [received, Command.raises, momentEscapes, read, fits]
  · simp [received, Command.effects, deadlineEffects, read, fits, ofMs]

variable {clock : Clock} {found : Arg → Bool} {command args : List Bytes}
  {records : List (List Arg)}

/-- The records of a `SET` that was not held back. -/
def setRecords (time : Time) (opts : SetOptions) : List (List Arg) :=
  match opts.ttl with
  | none => [[.ofString "SET", opts.key, opts.value]]
  | some ttl =>
      [[.ofString "SET", opts.key, opts.value], deadlineRecord opts.key (deadlineMs time ttl)]

theorem logTells_setRecords (sizes : ∀ data ∈ args, data.length ≤ MAX_BULK_LENGTH)
    {opts : SetOptions} (parsed : parseSet (received args) = .ok opts)
    (free : opts.blocked (found opts.key) = false) :
    LogTells ((setRecords clock.time opts).map sent)
      (loggedSet clock.time found (received args)) := by
  obtain ⟨options, split⟩ := parseSet_args parsed
  obtain ⟨key, keyMem, keyEq⟩ : ∃ key ∈ args, Arg.bytes key = opts.key := by
    have member : opts.key ∈ received args := by simp [split]
    exact List.mem_map.mp member
  obtain ⟨value, valueMem, valueEq⟩ : ∃ value ∈ args, Arg.bytes value = opts.value := by
    have member : opts.value ∈ received args := by simp [split]
    exact List.mem_map.mp member
  have stored := logTells_set (sizes key keyMem) (sizes value valueMem)
  rw [keyEq, valueEq] at stored
  have effectsEq : loggedSet clock.time found (received args) =
      [.act opts.key (.write opts.value
        (opts.ttl.map fun ttl => ofMs (deadlineMs clock.time ttl)))] := by
    simp [loggedSet, parsed, free]
  rw [effectsEq, setRecords]
  cases lifetime : opts.ttl with
  | none => exact stored
  | some ttl =>
      obtain ⟨positive, bounded, -⟩ := (parseSet_ok parsed).2 ttl lifetime
      have loggable : Loggable (deadlineMs clock.time ttl) :=
        loggable_deadlineMs clock (by rw [abs_of_pos positive]; exact bounded.le)
      have dated := logTells_deadline (sizes key keyMem) loggable
      rw [keyEq] at dated
      have both := stored.append dated
      refine ⟨both.sendable, both.fine, ?_⟩
      intro later store plain represents
      -- Writing and then setting the deadline is writing with the deadline.
      have after := both.acts represents
      simp only [List.singleton_append, ExpiringMap.applyAll_cons, ExpiringMap.applyAll_nil,
        Effect.apply_setDeadline_write] at after
      exact after

theorem logTells_lifetime {key amount : Bytes} (keySmall : key.length ≤ MAX_BULK_LENGTH)
    {deadline : Int → Int} {number : Int} (parsed : parseInt (.bytes amount) = .ok number)
    (loggable : Loggable (deadline number)) :
    LogTells [sent (deadlineRecord (.bytes key) (deadline number))]
      (loggedLifetime deadline (received [key, amount])) := by
  have dated := logTells_deadline keySmall loggable
  simpa [received, loggedLifetime, parsed] using dated

theorem fine_of_accepted {store : Store} {command : List Arg}
    (accepted : Accepted (dispatch clock store command).1) : raises command = false := by
  have isOk := isOk_dispatch clock store command
  cases outcome : (dispatch clock store command).1 with
  | error raised =>
      rw [outcome] at accepted
      cases accepted
  | ok reply =>
      rw [outcome] at isOk
      exact Bool.not_eq_true' _ ▸ isOk.symm

theorem parseSet_of_ok {store : Store} {args : List Arg} {reply : Value}
    (done : (cmdSet clock store args).1 = .ok reply) : ∃ opts, parseSet args = .ok opts := by
  rcases cmdSet_cases clock store args with
    ⟨_, -, outcome⟩ | ⟨opts, _, parsed, -⟩ | ⟨opts, _, parsed, -⟩
  · rw [outcome] at done
    cases done
  · exact ⟨opts, parsed⟩
  · exact ⟨opts, parsed⟩

theorem abs_intCast_le {number : Int} (inRange : InInt64 number) : |(number : Time)| ≤ 2 ^ 63 := by
  have least : (-(2 ^ 63) : Time) ≤ number := by exact_mod_cast inRange.1
  have greatest : (number : Time) ≤ 2 ^ 63 - 1 := by exact_mod_cast inRange.2
  rw [abs_le]
  constructor <;> linarith

/-- The records of an accepted write tell its effects. -/
theorem logTells_toAofCommands {store : Store}
    (accepted : Accepted (dispatch clock store (received command)).1)
    (deliverable : Deliverable command)
    (recorded : toAofCommands clock.time (received command) = .ok records)
    (free : ∀ opts, Command.ofCommand (received command) = some .set →
      parseSet (received command).tail = .ok opts → opts.blocked (found opts.key) = false) :
    LogTells (records.map sent) (loggedEffects clock.time found (received command)) := by
  obtain ⟨known, reply, knownEq, done⟩ := accepted_known accepted
  cases command with
  | nil => cases knownEq
  | cons head args =>
      have sizes : ∀ data ∈ args, data.length ≤ MAX_BULK_LENGTH :=
        fun data member => deliverable.sizes data (List.mem_cons_of_mem head member)
      have named : known.name = upper (toText (.bytes head)) :=
        Command.ofName_eq_some_iff.mp knownEq
      unfold loggedEffects
      rw [knownEq]
      change toAofCommands clock.time (.bytes head :: received args) = .ok records at recorded
      unfold toAofCommands at recorded
      dsimp only at recorded
      rw [← named] at recorded
      have verbatim (isVerbatim : known.Verbatim)
          (same : records = [received (head :: args)]) :
          LogTells (records.map sent)
            (known.effects clock.time (fun _ => none) (received args)) := by
        rw [same, List.map_singleton, sent_received]
        refine logTells_single (List.cons_ne_nil _ _) deliverable (fine_of_accepted accepted) ?_
        intro time plain
        rw [commandEffects, knownEq]
        exact effects_of_verbatim isVerbatim ..
      cases known with
      | set =>
          rw [if_pos (by decide)] at recorded
          obtain ⟨opts, parsed⟩ : ∃ opts, parseSet (received args) = .ok opts :=
            parseSet_of_ok done
          have recordsEq : records = setRecords clock.time opts := by
            simp only [parsed] at recorded
            unfold setRecords
            cases lifetime : opts.ttl with
            | none | some ttl =>
                rw [lifetime] at recorded
                cases recorded
                rfl
          rw [recordsEq]
          exact logTells_setRecords sizes parsed (free opts knownEq parsed)
      | expire =>
          rw [if_neg (by decide), if_pos (by decide)] at recorded
          rcases args with _ | ⟨key, _ | ⟨amount, _ | ⟨_, _⟩⟩⟩
          case cons.cons.nil =>
            obtain ⟨number, parsed⟩ := lifetime_ok done
            simp only [received, List.map_cons, List.map_nil, loggedNumber,
              (parseInt_ok parsed).1] at recorded
            cases recorded
            have loggable : Loggable (deadlineMs clock.time number) :=
              loggable_deadlineMs clock (abs_intCast_le (parseInt_ok parsed).2)
            exact @logTells_lifetime key amount (sizes key (by simp))
              (fun seconds => deadlineMs clock.time seconds) number parsed loggable
          all_goals cases done
      | pexpire =>
          rw [if_neg (by decide), if_neg (by decide), if_pos (by decide)] at recorded
          rcases args with _ | ⟨key, _ | ⟨amount, _ | ⟨_, _⟩⟩⟩
          case cons.cons.nil =>
            obtain ⟨number, parsed⟩ := lifetime_ok done
            simp only [received, List.map_cons, List.map_nil, loggedNumber,
              (parseInt_ok parsed).1] at recorded
            cases recorded
            exact @logTells_lifetime key amount (sizes key (by simp))
              (fun milliseconds => truncateToInt (clock.time * 1000) + milliseconds) number
              parsed (loggable_truncate clock (parseInt_ok parsed).2)
          all_goals cases done
      | mset | incr | decr | incrby | decrby | del | pexpireat | persist | flushdb | ping
      | echo | get | mget | existsKey | ttl | keys | dbsize =>
          refine verbatim trivial ?_
          rw [if_neg (by decide), if_neg (by decide), if_neg (by decide)] at recorded
          cases recorded
          rfl

end Records

end MiniCache
