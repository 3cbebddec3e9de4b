import MiniCache.CommandCalls
import MiniCache.PrimaryRuns

/-!
# The stream as the replica applies it

Commands of the primary survive the encoding and the reading by the replica, which
dispatches them.  What a logged write sends has on the replica the effects that it
had on the primary.
-/

namespace MiniCache

open ExpiringMap (Effect Action Tracks Trails applyAll)

section Names

/-- Both ways to turn an ASCII name to upper case agree. -/
theorem encodeUtf8_upper {data : Bytes} (ascii : ∀ byte ∈ data, byte < 0x80) :
    encodeUtf8 (upper (decodeUtf8 data)) = bytesUpper data := by
  have single : ∀ code < 128,
      encodeUtf8 (upperChar (Char.ofNat (UInt8.ofNat code).toNat)) =
        bytesUpper [UInt8.ofNat code] := by
    decide +kernel
  rw [decodeUtf8_of_ascii ascii]
  induction data with
  | nil => rfl
  | cons byte rest ih =>
      have small := UInt8.lt_iff_toNat_lt.mp (ascii byte (by simp))
      have here := single byte.toNat small
      rw [UInt8.ofNat_toNat] at here
      have tail := ih fun other member => ascii other (by simp [member])
      rw [List.map_cons, upper, List.flatMap_cons, ← upper, encodeUtf8, List.flatMap_append,
        ← encodeUtf8, ← encodeUtf8, here, tail]
      rfl

/-- A known command, by the bytes of its name. -/
theorem bytesUpper_head {head : Bytes} {args : List Bytes} {found : Command}
    (ascii : AsciiNamed (head :: args))
    (known : Command.ofCommand (received (head :: args)) = some found) :
    bytesUpper head = encodeUtf8 found.name := by
  rw [← encodeUtf8_upper (ascii head rfl)]
  exact congrArg encodeUtf8 (Command.ofName_eq_some_iff.mp known).symm

/-- `SET` is recognised by its name. -/
theorem namesSet_iff {head : Bytes} {args : List Bytes} {found : Command}
    (ascii : AsciiNamed (head :: args))
    (known : Command.ofCommand (received (head :: args)) = some found) :
    namesSet (.bytes head) = true ↔ found = .set := by
  rw [namesSet, bytesUpper_head ascii known, decide_eq_true_iff]
  constructor
  · intro same
    cases found <;> first | rfl | exact absurd same (by decide +kernel)
  · rintro rfl
    rfl

end Names

section Delivery

variable {clock : Clock} {command : List Arg}

theorem deliver_eq (deliverable : Deliverable (sent command)) (store : Store) :
    deliver clock store command = applyStreamed clock store (sent command) := by
  have read := readCommand_append deliverable []
  rw [List.append_nil] at read
  rw [deliver, read]
  rfl

/-- The replica dispatches a write command that it receives. -/
theorem deliver_write {found : Command} (deliverable : Deliverable (sent command))
    (ascii : AsciiNamed (sent command))
    (known : Command.ofCommand (received (sent command)) = some found) (writes : found.Writes)
    (fine : raises (received (sent command)) = false) (store : Store) :
    deliver clock store command =
      (.applied, (dispatch clock store (received (sent command))).2) := by
  rw [deliver_eq deliverable]
  generalize sent command = record at ascii known fine
  cases record with
  | nil => cases known
  | cons head args =>
      have name := bytesUpper_head ascii known
      have notRefusal : head.head? ≠ some 45 := by
        intro minus
        have first : (bytesUpper head).head? = some 45 := by
          rw [bytesUpper, List.head?_map, minus]
          rfl
        rw [name] at first
        revert first
        cases found <;> decide +kernel
      have notPing : bytesUpper head ≠ encodeUtf8 "PING".toList := by
        rw [name]
        cases found <;> first | exact writes.elim | decide +kernel
      have isOk := isOk_dispatch clock store (received (head :: args))
      rw [fine] at isOk
      rw [applyStreamed, if_neg notRefusal, if_neg notPing]
      cases outcome : dispatch clock store (received (head :: args)) with
      | mk result left =>
          cases result with
          | error raised =>
              rw [outcome] at isOk
              cases isOk
          | ok reply => rfl

/-- Commands that all arrive, with these effects on the replica. -/
structure Streams (clock : Clock) (commands : List (List Arg))
    (effects : List (Effect Arg Arg Time)) : Prop where
  acts : ∀ {store : Store} {plain : PlainMap}, Represents clock store plain →
    ∃ after, deliverAll clock commands store = (true, after) ∧
      Represents clock after (applyAll clock.time effects plain)

theorem streams_nil : Streams clock [] [] :=
  ⟨fun {store} _ represents => ⟨store, rfl, represents⟩⟩

theorem deliverAll_append {first second : List (List Arg)} {store middle : Store}
    (done : deliverAll clock first store = (true, middle)) :
    deliverAll clock (first ++ second) store = deliverAll clock second middle := by
  induction first generalizing store with
  | nil =>
      cases done
      rfl
  | cons command rest ih =>
      rw [deliverAll] at done
      rw [List.cons_append, deliverAll]
      split at done
      · exact ih done
      · cases done

theorem Streams.append {first second : List (List Arg)}
    {effects later : List (Effect Arg Arg Time)} (streams : Streams clock first effects)
    (streamsLater : Streams clock second later) :
    Streams clock (first ++ second) (effects ++ later) := by
  refine ⟨fun {store plain} represents => ?_⟩
  obtain ⟨middle, done, halfway⟩ := streams.acts represents
  obtain ⟨after, doneLater, represented⟩ := streamsLater.acts halfway
  refine ⟨after, (deliverAll_append done).trans doneLater, ?_⟩
  rwa [ExpiringMap.applyAll_append]

theorem streams_write {found : Command} {effects : List (Effect Arg Arg Time)}
    (deliverable : Deliverable (sent command)) (ascii : AsciiNamed (sent command))
    (known : Command.ofCommand (received (sent command)) = some found) (writes : found.Writes)
    (fine : raises (received (sent command)) = false)
    (effectsEq : ∀ plain, commandEffects clock.time plain (received (sent command)) = effects) :
    Streams clock [command] effects := by
  refine ⟨fun {store plain} represents => ?_⟩
  rw [deliverAll, deliver_write deliverable ascii known writes fine, ← effectsEq plain]
  exact ⟨_, rfl, represents_dispatch represents _⟩

/-- A command of the program's own spelling. -/
theorem streams_spelled (found : Command) (writes : found.Writes) {args : List Bytes}
    {effects : List (Effect Arg Arg Time)} (same : sent command = encodeUtf8 found.name :: args)
    (count : args.length < MAX_ARRAY_LENGTH) (sizes : ∀ data ∈ args, data.length ≤ MAX_BULK_LENGTH)
    (fine : found.raises (received args) = false)
    (effectsEq : ∀ plain, found.effects clock.time plain (received args) = effects) :
    Streams clock [command] effects := by
  have known : Command.ofCommand (received (sent command)) = some found := by
    rw [same]
    exact ofCommand_name found (received args)
  refine streams_write ?_ ?_ known writes ?_ fun plain => ?_
  · rw [same]
    refine ⟨count, ?_⟩
    intro data member
    rcases List.mem_cons.mp member with rfl | inArgs
    · cases found <;> decide +kernel
    · exact sizes data inArgs
  · rw [same]
    intro head isHead
    cases isHead
    cases found <;> decide +kernel
  · rw [raises_of_known known, same]
    exact fine
  · rw [commandEffects, known, same]
    exact effectsEq plain

end Delivery

section Numbers

theorem matchesInt_intText (number : Int) : matchesInt (intText number) = true := by
  have digits := toDigits_allDigits number.natAbs
  unfold intText
  split_ifs
  · exact matchesInt_neg digits
  · exact matchesInt_of_allDigits digits

/-- Reading back the text of a number. -/
theorem parseInt_of_toText {arg : Arg} {number : Int} (same : toText arg = intText number)
    (short : number.natAbs < 10 ^ maxStrDigits) :
    parseInt arg =
      if InInt64 number then .ok number else .error (.badArgument notAnInteger) := by
  unfold parseInt
  dsimp only
  rw [same, if_pos (matchesInt_intText number), intOfText_intText short]

theorem parseInt_intText {number : Int} (inRange : InInt64 number) :
    parseInt (.bytes (encodeUtf8 (intText number))) = .ok number := by
  have small : number.natAbs < 10 ^ maxStrDigits :=
    lt_of_lt_of_le (natAbs_lt_of_inInt64 inRange) (Nat.pow_le_pow_right (by decide) (by decide))
  rw [parseInt_of_toText (toText_intText number) small, if_pos inRange]

/-- A `SET` with one option, a number of milliseconds. -/
theorem parseSet_unit (key value : Arg) {unit amount : Arg} (named : toText unit = "PX".toList) :
    parseSet [key, value, unit, amount] =
      match parseTtl "PX".toList amount with
      | .error raised => .error raised
      | .ok ttl => .ok ⟨key, value, false, false, false, some ttl⟩ := by
  have option : upper (toText unit) = "PX".toList := by
    rw [named]
    decide +kernel
  have read : parseSetOptions [unit, amount] ⟨key, value, false, false, false, none⟩ =
      match parseTtl "PX".toList amount with
      | .error raised => .error raised
      | .ok ttl => .ok ⟨key, value, false, false, false, some ttl⟩ := by
    unfold parseSetOptions
    dsimp only
    rw [option, if_neg (by decide), if_neg (by decide), if_neg (by decide),
      if_pos (by decide)]
    cases parseTtl "PX".toList amount with
    | error raised => rfl
    | ok ttl => rfl
  rw [parseSet, read]
  cases parseTtl "PX".toList amount with
  | error raised => rfl
  | ok ttl => rfl

theorem parseTtl_px {amount : Arg} {milliseconds : Int}
    (read : parseInt amount = .ok milliseconds) (positive : 0 < milliseconds) :
    parseTtl "PX".toList amount = .ok (milliseconds / 1000) := by
  unfold parseTtl
  rw [read]
  dsimp only
  rw [if_neg (not_le_of_gt positive), if_neg (by decide)]

/-- The form in which a `SET` with a lifetime is sent. -/
theorem parseSet_px (key value : Arg) {milliseconds : Int} (positive : 0 < milliseconds)
    (inRange : InInt64 milliseconds) :
    parseSet [key, value, .bytes (encodeUtf8 "PX".toList),
        .bytes (encodeUtf8 (intText milliseconds))] =
      .ok ⟨key, value, false, false, false, some (milliseconds / 1000)⟩ := by
  have named : toText (.bytes (encodeUtf8 "PX".toList)) = "PX".toList := by decide +kernel
  rw [parseSet_unit key value named, parseTtl_px (parseInt_intText inRange) positive]

end Numbers

section Writes

/-- The expiry argument of a command, in milliseconds. -/
def Command.expiry (args : List Arg) : Command → Option Time
  | .set =>
      match parseSet args with
      | .error _ => none
      | .ok opts => opts.ttl.map (· * 1000)
  | .expire =>
      match args with
      | [_, amount] => (intOfText (toText amount)).map fun seconds => seconds * 1000
      | _ => none
  | .pexpire | .pexpireat =>
      match args with
      | [_, amount] => (intOfText (toText amount)).map fun milliseconds => milliseconds
      | _ => none
  | _ => none

/-- A command whose expiry argument, if any, is less than 2^53 milliseconds. -/
def ShortLived (command : List Bytes) : Prop :=
  match Command.ofCommand (received command) with
  | none => True
  | some found => ∀ milliseconds ∈ found.expiry (received command).tail, milliseconds < 2 ^ 53

instance (command : List Bytes) : Decidable (ShortLived command) := by
  unfold ShortLived
  split <;> infer_instance

theorem effects_of_ne_set {found : Command} (different : found ≠ .set) (time : Time)
    (plain other : PlainMap) (args : List Arg) :
    found.effects time plain args = found.effects time other args := by
  cases found <;> first | rfl | exact absurd rfl different

variable {clock : Clock} {store : Store} {plain : PlainMap} {command : List Bytes}

theorem streams_set {key value : Bytes} (keySmall : key.length ≤ MAX_BULK_LENGTH)
    (valueSmall : value.length ≤ MAX_BULK_LENGTH) :
    Streams clock [[.ofString "SET", .bytes key, .bytes value]]
      [.act (.bytes key) (.write (.bytes value) none)] := by
  refine @streams_spelled clock _ .set trivial [key, value] _ rfl ?_ ?_ rfl fun plain => rfl
  · simp only [List.length_cons, List.length_nil]
    decide
  · simpa using ⟨keySmall, valueSmall⟩

theorem streams_setPx {key value : Bytes} (keySmall : key.length ≤ MAX_BULK_LENGTH)
    (valueSmall : value.length ≤ MAX_BULK_LENGTH) {milliseconds : Int}
    (positive : 0 < milliseconds) (inRange : InInt64 milliseconds) :
    Streams clock
      [[.ofString "SET", .bytes key, .bytes value] ++ [.ofString "PX", .ofInt milliseconds]]
      [.act (.bytes key)
        (.write (.bytes value) (some (clock.time + (milliseconds : Time) / 1000)))] := by
  have parsed : parseSet (received
      [key, value, encodeUtf8 "PX".toList, encodeUtf8 (intText milliseconds)]) = _ :=
    parseSet_px (.bytes key) (.bytes value) positive inRange
  refine @streams_spelled clock _ .set trivial
    [key, value, encodeUtf8 "PX".toList, encodeUtf8 (intText milliseconds)] _ rfl ?_ ?_ ?_
    fun plain => ?_
  · simp only [List.length_cons, List.length_nil]
    decide
  · have unit : (encodeUtf8 "PX".toList).length ≤ MAX_BULK_LENGTH := by decide +kernel
    simpa using ⟨keySmall, valueSmall, unit, length_intText_wire inRange⟩
  · change escaping (parseSet _) = false
    rw [parsed]
    rfl
  · change setEffects clock.time plain _ = _
    rw [setEffects, parsed]
    rfl

theorem toReplicationCommand_set {head : Arg} {args : List Arg} {opts : SetOptions}
    (isNamed : namesSet head = true) (parsed : parseSet args = .ok opts) :
    toReplicationCommand (head :: args) =
      [.ofString "SET", opts.key, opts.value] ++
        match opts.ttl with
        | none => []
        | some ttl => [.ofString "PX", .ofInt (max 1 (roundToEven (ttl * 1000)))] := by
  rw [toReplicationCommand, if_pos isNamed, parsed]
  dsimp only
  cases opts.ttl <;> rfl

theorem ShortLived.sendable (short : ShortLived command) {found : Command}
    (known : Command.ofCommand (received command) = some found) :
    ∀ milliseconds ∈ found.expiry (received command).tail, found = .set →
      milliseconds < 2 ^ 63 := by
  intro milliseconds given _
  rw [ShortLived, known] at short
  exact (short milliseconds given).trans (by norm_num)

/-- What is sent of a logged write has the effects that the write had. -/
theorem streams_toReplicationCommand {found : Command}
    (accepted : Accepted (dispatch clock store (received command)).1)
    (deliverable : Deliverable command) (ascii : AsciiNamed command)
    (known : Command.ofCommand (received command) = some found) (writes : found.Writes)
    (free : ∀ opts, parseSet (received command).tail = .ok opts → found = .set →
      opts.blocked (ExpiringMap.live clock.time (plain opts.key)).isSome = false)
    (sendable : ∀ milliseconds ∈ found.expiry (received command).tail, found = .set →
      milliseconds < 2 ^ 63) :
    Streams clock [toReplicationCommand (received command)]
      (commandEffects clock.time plain (received command)) := by
  cases command with
  | nil => cases known
  | cons head args =>
      have effectsEq : commandEffects clock.time plain (received (head :: args)) =
          found.effects clock.time plain (received args) := by
        rw [commandEffects, known]
        rfl
      rw [effectsEq]
      by_cases isSet : found = .set
      · subst isSet
        obtain ⟨_, reply, knownAgain, done⟩ := accepted_known accepted
        cases known.symm.trans knownAgain
        obtain ⟨opts, parsed⟩ : ∃ opts, parseSet (received args) = .ok opts :=
          parseSet_of_ok done
        have unblocked := free opts parsed rfl
        obtain ⟨options, split⟩ := parseSet_args parsed
        have sizes : ∀ data ∈ args, data.length ≤ MAX_BULK_LENGTH :=
          fun data member => deliverable.sizes data (List.mem_cons_of_mem head member)
        obtain ⟨key, keyMem, keyEq⟩ : ∃ key ∈ args, Arg.bytes key = opts.key :=
          List.mem_map.mp (show opts.key ∈ received args by simp [split])
        obtain ⟨value, valueMem, valueEq⟩ : ∃ value ∈ args, Arg.bytes value = opts.value :=
          List.mem_map.mp (show opts.value ∈ received args by simp [split])
        have writesThere : Command.set.effects clock.time plain (received args) =
            [.act opts.key (.write opts.value (opts.ttl.map (clock.time + ·)))] := by
          simp [Command.effects, setEffects, parsed, unblocked]
        have isNamed : namesSet (.bytes head) = true := (namesSet_iff ascii known).mpr rfl
        have form : toReplicationCommand (received (head :: args)) = _ :=
          toReplicationCommand_set isNamed parsed
        rw [form, writesThere, ← keyEq, ← valueEq]
        cases lifetime : opts.ttl with
        | none => exact streams_set (sizes key keyMem) (sizes value valueMem)
        | some ttl =>
            obtain ⟨positive, -, milliseconds, whole⟩ := (parseSet_ok parsed).2 ttl lifetime
            have limit : ttl * 1000 < 2 ^ 63 := by
              refine sendable _ ?_ rfl
              change _ ∈ Command.expiry (received args) .set
              rw [Command.expiry, parsed]
              dsimp only
              rw [lifetime]
              rfl
            rw [whole] at limit
            have small : milliseconds < 2 ^ 63 := by exact_mod_cast limit
            have atLeast : 0 < milliseconds := by
              have : (0 : Time) < milliseconds := by rw [← whole]; positivity
              exact_mod_cast this
            have ttlEq : ttl = milliseconds / 1000 := by rw [← whole]; ring
            have rounded : max 1 (roundToEven (ttl * 1000)) = milliseconds := by
              rw [whole, roundToEven_intCast]
              omega
            dsimp only
            rw [rounded, Option.map_some, ttlEq]
            exact streams_setPx (sizes key keyMem) (sizes value valueMem) atLeast
              ⟨by omega, by omega⟩
      · have form : toReplicationCommand (received (head :: args)) = received (head :: args) := by
          rw [received, List.map_cons, toReplicationCommand,
            if_neg (mt (namesSet_iff ascii known).mp isSet)]
        rw [form]
        refine streams_write (by rwa [sent_received]) (by rwa [sent_received])
          (by rwa [sent_received]) writes (by rw [sent_received]; exact fine_of_accepted accepted)
          fun other => ?_
        rw [sent_received, commandEffects, known]
        exact effects_of_ne_set isSet clock.time other plain (received args)

end Writes

end MiniCache
