import MiniCache.CommandCalls
import MiniCache.CommandErrors
import MiniCache.ReplyRoundTrip

/-!
# Every reply is one frame

The reply to a command is read back as one reply with nothing of what follows,
except in four cases: the command raises past the dispatcher, its unknown name
does not fit on a line of the reply, or the reply lists more keys or counts
further than a reader takes.
-/

namespace MiniCache

section Messages

open Value (FitsLine)

/-- The messages that do not depend on what the store holds. -/
def fixedMessages : List Text :=
  [notAnInteger, "syntax error".toList, "invalid expire time in 'set' command".toList,
    "increment or decrement would overflow".toList]

/-- The messages of the exceptions that the dispatcher turns into replies. -/
def IsMessage (message : Text) : Prop :=
  message ∈ fixedMessages ∨
    ∃ text : Text, text.length ≤ MAX_BULK_LENGTH ∧ message = tooManyDigits text

/-- Text of at most some ASCII characters, none of them a line feed. -/
structure Printed (bound : Nat) (text : Text) : Prop where
  length : text.length ≤ bound
  plain : (text.all fun char => decide (char.toNat < 128 ∧ char ≠ '\n')) = true

theorem Printed.append {bound next : Nat} {text rest : Text} (first : Printed bound text)
    (second : Printed next rest) : Printed (bound + next) (text ++ rest) := by
  refine ⟨?_, by rw [List.all_append, first.plain, second.plain]; rfl⟩
  rw [List.length_append]
  exact Nat.add_le_add first.length second.length

theorem Printed.fitsLine {bound : Nat} {text : Text} (printed : Printed bound text)
    (small : bound + 1 < streamLimit) : FitsLine text := by
  have plain : ∀ char ∈ text, char.toNat < 128 ∧ char ≠ '\n' := fun char member =>
    of_decide_eq_true (List.all_eq_true.mp printed.plain char member)
  refine ⟨fun feed => (plain _ feed).2 rfl, ?_⟩
  rw [encodeUtf8_of_isAscii fun char member => (plain char member).1, List.length_map]
  exact lt_of_le_of_lt (Nat.succ_le_succ printed.length) small

theorem printed_intText {number : Int} {bound : Nat} (small : number.natAbs < 10 ^ bound)
    (positive : 0 < bound) : Printed (bound + 1) (intText number) := by
  refine ⟨length_intText_le small positive, ?_⟩
  rw [List.all_eq_true]
  intro char member
  refine decide_eq_true ⟨intText_isAscii number char member, ?_⟩
  rintro rfl
  exact feed_not_mem_intBytes number (feed_mem_encodeUtf8_iff.mpr member)

theorem fitsLine_tooManyDigits {text : Text} (small : text.length ≤ MAX_BULK_LENGTH) :
    FitsLine ("ERR ".toList ++ tooManyDigits text) := by
  have digits : ((text.filter Char.isDigit).length : Int).natAbs < 10 ^ 9 := by
    have filtered := List.length_filter_le Char.isDigit text
    have bound : text.length < 10 ^ 9 := lt_of_le_of_lt small (by decide)
    omega
  have start : Printed 4 "ERR ".toList := ⟨by decide, by decide +kernel⟩
  have before : Printed 80
      "Exceeds the limit (4300 digits) for integer string conversion: value has ".toList :=
    ⟨by decide, by decide +kernel⟩
  have after : Printed 80
      " digits; use sys.set_int_max_str_digits() to increase the limit".toList :=
    ⟨by decide, by decide +kernel⟩
  exact (start.append ((before.append (printed_intText digits (by decide))).append
    after)).fitsLine (by decide)

theorem IsMessage.fitsLine {message : Text} (isMessage : IsMessage message) :
    FitsLine ("ERR ".toList ++ message) := by
  rcases isMessage with fixed | ⟨text, small, rfl⟩
  · have all : (fixedMessages.all fun message =>
        decide (FitsLine ("ERR ".toList ++ message))) = true := by decide +kernel
    exact of_decide_eq_true (List.all_eq_true.mp all message fixed)
  · exact fitsLine_tooManyDigits small

theorem fitsLine_wrongArity (command : Command) :
    FitsLine ("ERR wrong number of arguments for '".toList ++ command.name ++
      "' command".toList) := by
  cases command <;> decide +kernel

/-- An exception whose message, if it is caught, is a fixed one. -/
def Raised.Fixed : Raised → Prop
  | .badArgument message => message ∈ fixedMessages
  | .wrongArity | .valueError _ | .overflowError => True

theorem parseInt_fixed {arg : Arg} {raised : Raised} (failed : parseInt arg = .error raised) :
    raised.Fixed := by
  have known : notAnInteger ∈ fixedMessages := by simp [fixedMessages]
  unfold parseInt at failed
  dsimp only at failed
  split at failed
  · split at failed
    · cases failed
      trivial
    · split_ifs at failed
      cases failed
      exact known
  · cases failed
    exact known

theorem parseTtl_fixed {unit : Text} {arg : Arg} {raised : Raised}
    (failed : parseTtl unit arg = .error raised) : raised.Fixed := by
  unfold parseTtl at failed
  cases parsed : parseInt arg with
  | error other =>
      rw [parsed] at failed
      cases failed
      exact parseInt_fixed parsed
  | ok number =>
      rw [parsed] at failed
      dsimp only at failed
      split_ifs at failed
      cases failed
      simp [Raised.Fixed, fixedMessages]

theorem syntaxError_fixed : syntaxError.Fixed := by
  simp [syntaxError, Raised.Fixed, fixedMessages]

theorem parseSetOptions_fixed {options : List Arg} {opts : SetOptions} {raised : Raised}
    (failed : parseSetOptions options opts = .error raised) : raised.Fixed := by
  revert failed
  fun_induction parseSetOptions options opts with
  | case1 => rintro ⟨⟩
  | case2 | case3 | case4 | case6 => assumption
  | case5 arg opts option _ _ _ _ number rest _ other read =>
      rintro ⟨⟩
      exact parseTtl_fixed read
  | case7 | case8 =>
      rintro ⟨⟩
      exact syntaxError_fixed

theorem parseSet_fixed {args : List Arg} {raised : Raised}
    (failed : parseSet args = .error raised) : raised.Fixed := by
  unfold parseSet at failed
  split at failed
  · split at failed
    · rename_i scanned
      cases failed
      exact parseSetOptions_fixed scanned
    · split_ifs at failed
      cases failed
      exact syntaxError_fixed
  · cases failed
    exact syntaxError_fixed

theorem storedInt_isMessage {value : Arg} (storable : Storable value) {message : Text}
    (failed : storedInt value = .error message) : IsMessage message := by
  have known : notAnInteger ∈ fixedMessages := by simp [fixedMessages]
  obtain ⟨data, rfl, small⟩ := storable
  unfold storedInt at failed
  dsimp only at failed
  split at failed
  · split at failed
    · cases failed
      exact Or.inr ⟨_, by rwa [decodeAscii, List.length_map], rfl⟩
    · split_ifs at failed
      cases failed
      exact Or.inl known
  · cases failed
    exact Or.inl known

theorem incremented_isMessage {current : Option Arg} (storable : ∀ value ∈ current, Storable value)
    {delta : Int} {message : Text} (failed : Store.incremented current delta = .error message) :
    IsMessage message := by
  have overflow : "increment or decrement would overflow".toList ∈ fixedMessages := by
    simp [fixedMessages]
  unfold Store.incremented at failed
  split at failed
  · split_ifs at failed
    cases failed
    exact Or.inl overflow
  · rename_i value
    split at failed
    · rename_i unread
      cases failed
      exact storedInt_isMessage (storable value rfl) unread
    · split_ifs at failed
      cases failed
      exact Or.inl overflow

end Messages

section Replies

variable {clock : Clock} {store : Store} {args : List Arg} {key : Arg}

theorem Storable.sendable {arg : Arg} (storable : Storable arg) : (Value.arg arg).Sendable := by
  obtain ⟨data, rfl, small⟩ := storable
  exact small

theorem sendable_ofOption {found : Option Arg} (storable : ∀ value ∈ found, Storable value) :
    (Value.ofOption found).Sendable := by
  cases found with
  | none => trivial
  | some value => exact (storable value rfl).sendable

theorem storable_of_live (storing : store.Storing) {now : Time} :
    ∀ value ∈ ((store.live now).get? key).map Prod.fst, Storable value := by
  intro value found
  obtain ⟨content, live, rfl⟩ := Option.map_eq_some_iff.mp found
  rw [← Store.live_plain] at live
  exact (storing key content (ExpiringMap.live_eq_some_iff.mp live).1).2

theorem storable_lookup (storing : store.Storing) :
    ∀ value ∈ (lookup clock store key).1, Storable value := by
  have same : (lookup clock store key).1 = (store.get clock.monotonic key).1 := by
    unfold lookup
    dsimp only
    split <;> rename_i found <;> exact found.symm
  rw [same, Store.get_result]
  exact storable_of_live storing

theorem sendable_mgetLoop {keys : List Arg} {store : Store} (storing : store.Storing) :
    ∀ item ∈ (mgetLoop clock keys store).1, item.Sendable := by
  induction keys generalizing store with
  | nil => simp [mgetLoop]
  | cons key rest ih =>
      have run : Runs clock.monotonic Storable (fun _ => True) store (lookup clock store key).2 :=
        (performs_lookup clock store key).runs (by simp [Call.Uses, Call.Lasts])
      have next := run.reaches.storing storing
      exact List.forall_mem_cons.mpr ⟨sendable_ofOption (storable_lookup storing), ih next⟩

theorem natAbs_small_of_le {number bound : Nat} (within : number ≤ bound)
    (small : bound < 10 ^ 25) : ((number : Int)).natAbs < 10 ^ maxStrDigits := by
  rw [Int.natAbs_natCast]
  exact (lt_of_le_of_lt within small).trans_le (Nat.pow_le_pow_right (by decide) (by decide))

theorem delLoop_le (keys : List Arg) (store : Store) :
    (delLoop clock keys store).1 ≤ keys.length := by
  induction keys generalizing store with
  | nil => exact Nat.le_refl 0
  | cons key rest ih =>
      have others := ih (store.delete clock.monotonic key).2
      simp only [delLoop, List.length_cons]
      split_ifs <;> omega

theorem existsLoop_le (keys : List Arg) (store : Store) :
    (existsLoop clock keys store).1 ≤ keys.length := by
  induction keys generalizing store with
  | nil => exact Nat.le_refl 0
  | cons key rest ih =>
      have others := ih (lookup clock store key).2
      simp only [existsLoop, List.length_cons]
      split_ifs <;> omega

theorem sendable_cmdSet (storing : store.Storing) {reply : Value}
    (done : (cmdSet clock store args).1 = .ok reply) : reply.Sendable := by
  have fits : Value.FitsLine "OK".toList := by decide
  unfold cmdSet at done
  split_ifs at done
  cases parsed : parseSet args with
  | error raised =>
      rw [parsed] at done
      cases done
  | ok opts =>
      rw [parsed] at done
      dsimp only at done
      have found : (store.existsKey clock.monotonic opts.key).2.Storing :=
        @Store.storing_call store clock.monotonic storing (.existsKey opts.key) trivial
      have previous : ∀ value ∈ (if opts.get then
          (store.existsKey clock.monotonic opts.key).2.get clock.monotonic opts.key
          else (none, (store.existsKey clock.monotonic opts.key).2)).1, Storable value := by
        split_ifs
        · rw [Store.get_result]
          exact storable_of_live found
        · simp
      generalize (if opts.get then
          (store.existsKey clock.monotonic opts.key).2.get clock.monotonic opts.key
          else (none, (store.existsKey clock.monotonic opts.key).2)) = looked at previous done
      split_ifs at done <;> cases done
      · exact sendable_ofOption previous
      · exact sendable_ofOption previous
      · exact fits

theorem sendable_runIncr {delta : Int} {reply : Value}
    (done : (runIncr clock store key delta).1 = .ok reply) : reply.Sendable := by
  unfold runIncr at done
  have result := Store.incr_result store clock.monotonic key delta
  dsimp only at done
  split at done
  · cases done
  · rename_i new stored
    cases done
    rw [stored] at result
    have small := natAbs_lt_of_inInt64 (inInt64_of_incremented result.symm)
    exact small.trans_le (Nat.pow_le_pow_right (by decide) (by decide))

/-- The keys that `KEYS` lists. -/
def Store.listed (store : Store) (now : Time) : List Arg → List Arg
  | [] => (store.live now).keys
  | [pattern] => (store.live now).keys.filter fun key => fnmatchcase key (key.like pattern)
  | _ => []

/-- The reply to a command is within the limits of a reader. -/
def Command.Presentable (clock : Clock) (store : Store) (args : List Arg) : Command → Prop
  | .keys => (store.listed clock.monotonic args).length ≤ MAX_ARRAY_LENGTH
  | .dbsize => args = [] → (store.live clock.monotonic).size < 10 ^ maxStrDigits
  | .ttl => ∀ key value deadline, args = [key] →
      (store.live clock.monotonic).get? key = some (value, some deadline) →
        ⌈deadline - clock.monotonic⌉.natAbs < 10 ^ maxStrDigits
  | .ping | .echo | .set | .get | .mset | .mget | .incr | .decr | .incrby | .decrby | .del
  | .existsKey | .expire | .pexpire | .pexpireat | .persist | .flushdb => True

/-- A command that raises has no reply that could be too large. -/
theorem presentable_of_error {command : Command} {raised : Raised}
    (failed : (command.handler clock store args).1 = .error raised) :
    command.Presentable clock store args := by
  cases command with
  | keys =>
      match args with
      | [] | [_] => cases failed
      | _ :: _ :: _ => exact Nat.zero_le _
  | dbsize =>
      match args with
      | [] => cases failed
      | _ :: _ => rintro ⟨⟩
  | ttl =>
      match args with
      | [_] => cases failed
      | [] | _ :: _ :: _ => rintro _ _ _ ⟨⟩
  | ping | echo | set | get | mset | mget | incr | decr | incrby | decrby | del | existsKey
  | expire | pexpire | pexpireat | persist | flushdb => trivial

theorem storable_keys (storing : store.Storing) {now : Time} :
    ∀ key ∈ (store.live now).keys, Storable key := by
  intro key member
  have present := OrderedDict.get?_isSome_iff.mpr member
  obtain ⟨content, live⟩ := Option.isSome_iff_exists.mp present
  rw [← Store.live_plain] at live
  exact (storing key content (ExpiringMap.live_eq_some_iff.mp live).1).1

theorem storable_listed (storing : store.Storing) {now : Time}
    (member : key ∈ store.listed now args) : Storable key := by
  match args with
  | [] => exact storable_keys storing key member
  | [pattern] => exact storable_keys storing key (List.mem_of_mem_filter member)
  | _ :: _ :: _ => cases member

theorem cmdKeys_reply (scheduled : Store.Scheduled store) {reply : Value}
    (done : (cmdKeys clock store args).1 = .ok reply) :
    reply = .list ((store.listed clock.monotonic args).map .arg) := by
  have listed := Store.keys_result store clock.monotonic scheduled
  match args with
  | [] =>
      cases done
      rw [Store.listed, listed]
  | [pattern] =>
      cases done
      rw [Store.listed, listed]
  | _ :: _ :: _ => cases done

theorem cmdTtl_reply (key : Arg) :
    (cmdTtl clock store [key]).1 = .ok (.int
      (match (store.live clock.monotonic).get? key with
        | none => -2
        | some (_, none) => -1
        | some (_, some deadline) => ⌈deadline - clock.monotonic⌉)) := by
  have result := Store.ttl_result store clock.monotonic key
  simp only [cmdTtl]
  rw [result]
  cases live : (store.live clock.monotonic).get? key with
  | none => rfl
  | some content =>
      obtain ⟨value, deadline⟩ := content
      cases deadline with
      | none => rfl
      | some deadline =>
          rw [← Store.live_plain] at live
          have alive : clock.monotonic < deadline := by
            have found := (ExpiringMap.live_eq_some_iff.mp live).2
            rwa [ExpiringMap.alive_some] at found
          have left : max 0 (deadline - clock.monotonic) = deadline - clock.monotonic :=
            max_eq_right (by linarith)
          have notMissing : deadline - clock.monotonic ≠ -1 := by linarith
          simp only [Store.remaining, left, if_neg notMissing]

/-- The messages of a handler are those of the table. -/
theorem handler_message (storing : store.Storing) {command : Command} {message : Text}
    (failed : (command.handler clock store args).1 = .error (.badArgument message)) :
    IsMessage message := by
  have ofIncr {key : Arg} {delta : Int}
      (failed : (runIncr clock store key delta).1 = .error (.badArgument message)) :
      IsMessage message := by
    have result := Store.incr_result store clock.monotonic key delta
    unfold runIncr at failed
    dsimp only at failed
    split at failed
    · rename_i text refused
      cases failed
      rw [refused] at result
      exact incremented_isMessage (storable_of_live storing) result.symm
    · cases failed
  have ofParse {amount : Arg} (failed : parseInt amount = .error (.badArgument message)) :
      IsMessage message := Or.inl (parseInt_fixed failed)
  cases command with
  | set =>
      rcases cmdSet_cases clock store args with
        ⟨raised, parsed, done⟩ | ⟨_, _, -, -, done⟩ | ⟨_, _, -, -, -, done⟩ <;>
        rw [Command.handler, done] at failed
      · dsimp only at failed
        split_ifs at failed
        · cases failed
        · cases failed
          exact Or.inl (parseSet_fixed parsed)
      · cases failed
      · cases failed
  | mset | mget | del | existsKey =>
      simp only [Command.handler, cmdMset, cmdMget, cmdDel, cmdExists] at failed
      split_ifs at failed
      cases failed
  | incr | decr =>
      rcases args with _ | ⟨key, _ | ⟨_, _⟩⟩
      · cases failed
      · exact ofIncr failed
      · cases failed
  | incrby | decrby =>
      rcases args with _ | ⟨key, _ | ⟨amount, _ | ⟨_, _⟩⟩⟩
      case cons.cons.nil =>
        simp only [Command.handler, cmdIncrby, cmdDecrby, counterBy] at failed
        split at failed
        · rename_i raised parsed
          cases failed
          exact ofParse parsed
        · exact ofIncr failed
      all_goals cases failed
  | expire | pexpire =>
      rcases args with _ | ⟨key, _ | ⟨amount, _ | ⟨_, _⟩⟩⟩
      case cons.cons.nil =>
        simp only [Command.handler, cmdExpire, cmdPexpire, lifetime] at failed
        split at failed
        · rename_i raised parsed
          cases failed
          exact ofParse parsed
        · cases failed
      all_goals cases failed
  | pexpireat =>
      rcases args with _ | ⟨key, _ | ⟨moment, _ | ⟨_, _⟩⟩⟩
      case cons.cons.nil =>
        simp only [Command.handler, cmdPexpireat] at failed
        split at failed
        · cases failed
          exact Or.inl (by simp [fixedMessages])
        · split_ifs at failed
          cases failed
      all_goals cases failed
  | ping | echo | get | ttl | persist | keys | flushdb | dbsize =>
      simp only [Command.handler, cmdPing, cmdEcho, cmdGet, cmdTtl, cmdPersist, cmdKeys,
        cmdFlushdb, cmdDbsize] at failed
      split at failed <;> cases failed

theorem Value.Sendable.shallow {reply : Value} (sendable : reply.Sendable) : reply.Shallow := by
  cases reply with
  | error | int => trivial
  | list items => exact Value.allSendable_iff.mp sendable.2
  | simpleString | bool | null | arg => exact sendable

/-- What a handler returns is shallow, and within the limits when the store and
the arguments are. -/
theorem handler_reply (storing : store.Storing) (scheduled : Store.Scheduled store)
    (storable : ∀ arg ∈ args, Storable arg) (count : args.length ≤ MAX_ARRAY_LENGTH)
    {command : Command} {reply : Value}
    (done : (command.handler clock store args).1 = .ok reply) :
    reply.Shallow ∧ (reply.Sendable ↔ command.Presentable clock store args) := by
  have within (sendable : reply.Sendable) : reply.Shallow ∧ (reply.Sendable ↔ True) :=
    ⟨sendable.shallow, iff_true_intro sendable⟩
  have few : MAX_ARRAY_LENGTH < 10 ^ 25 := by decide
  cases command with
  | ping | echo =>
      refine within ?_
      simp only [Command.handler, cmdPing, cmdEcho] at done
      split at done <;> cases done
      all_goals first
        | exact (storable _ (by simp)).sendable
        | exact (show Value.FitsLine "PONG".toList by decide)
  | set => exact within (sendable_cmdSet storing done)
  | get =>
      refine within ?_
      simp only [Command.handler, cmdGet] at done
      split at done <;> cases done
      exact sendable_ofOption (storable_lookup storing)
  | mset | flushdb =>
      refine within ?_
      have ok : reply = OK := by
        simp only [Command.handler, cmdMset, cmdFlushdb] at done
        first
          | (split_ifs at done; cases done; rfl)
          | (split at done <;> cases done; rfl)
      rw [ok]
      exact (show Value.FitsLine "OK".toList by decide)
  | mget =>
      refine within ?_
      simp only [Command.handler, cmdMget] at done
      split_ifs at done
      cases done
      refine ⟨?_, Value.allSendable_iff.mpr (sendable_mgetLoop storing)⟩
      rwa [length_mgetLoop]
  | incr | decr =>
      refine within ?_
      simp only [Command.handler, cmdIncr, cmdDecr, counter] at done
      split at done
      · exact sendable_runIncr done
      · cases done
  | incrby | decrby =>
      refine within ?_
      simp only [Command.handler, cmdIncrby, cmdDecrby, counterBy] at done
      split at done
      · split at done
        · cases done
        · exact sendable_runIncr done
      · cases done
  | del =>
      refine within ?_
      simp only [Command.handler, cmdDel] at done
      split_ifs at done
      cases done
      exact natAbs_small_of_le ((delLoop_le args store).trans count) few
  | existsKey =>
      refine within ?_
      simp only [Command.handler, cmdExists] at done
      split_ifs at done
      cases done
      exact natAbs_small_of_le ((existsLoop_le args store).trans count) few
  | expire | pexpire =>
      refine within ?_
      simp only [Command.handler, cmdExpire, cmdPexpire, lifetime] at done
      split at done
      · split at done <;> cases done
        trivial
      · cases done
  | pexpireat =>
      refine within ?_
      simp only [Command.handler, cmdPexpireat] at done
      split at done
      · split at done
        · cases done
        · split_ifs at done
          cases done
          trivial
      · cases done
  | persist =>
      refine within ?_
      simp only [Command.handler, cmdPersist] at done
      split at done <;> cases done
      trivial
  | ttl =>
      rcases args with _ | ⟨key, _ | ⟨_, _⟩⟩
      · cases done
      · rw [Command.handler, cmdTtl_reply] at done
        cases done
        refine ⟨trivial, ?_⟩
        constructor
        · rintro small other value deadline ⟨⟩ live
          rw [live] at small
          exact small
        · intro small
          cases live : (store.live clock.monotonic).get? key with
          | none => exact @natAbs_small (-2) (by decide)
          | some content =>
              obtain ⟨value, deadline⟩ := content
              cases deadline with
              | none => exact @natAbs_small (-1) (by decide)
              | some deadline => exact small key value deadline rfl live
      · cases done
  | keys =>
      obtain rfl := cmdKeys_reply scheduled done
      have each : ∀ item ∈ (store.listed clock.monotonic args).map Value.arg,
          item.Sendable := by
        intro item member
        obtain ⟨key, listed, rfl⟩ := List.mem_map.mp member
        exact (storable_listed storing listed).sendable
      refine ⟨each, ?_⟩
      rw [Value.Sendable, List.length_map, Value.allSendable_iff, and_iff_left each]
      rfl
  | dbsize =>
      rcases args with _ | ⟨_, _⟩
      · have counted := Store.len_result store clock.monotonic scheduled
        cases done
        refine ⟨trivial, ?_⟩
        simp [Value.Sendable, Command.Presentable, counted]
      · cases done

end Replies

section Exchanges

/-- The stores that a server reaches with the commands it reads, its sweeps and the
collection of evictions. -/
inductive Reachable : Store → Prop
  | init (maxmemory : Nat) (policy : Policy) : Reachable (.init maxmemory policy)
  | dispatch {store : Store} {command : List Bytes} (clock : Clock)
      (reachable : Reachable store) (deliverable : Deliverable command) :
      Reachable (dispatch clock store (command.map .bytes)).2
  | sweep {store : Store} (now : Time) (reachable : Reachable store) :
      Reachable (store.sweepExpired now).2
  | drain {store : Store} (reachable : Reachable store) :
      Reachable store.drainEvictions.2

variable {store : Store}

theorem Reachable.scheduled (reachable : Reachable store) : Store.Scheduled store := by
  induction reachable with
  | init maxmemory policy => exact Store.scheduled_init maxmemory policy
  | @dispatch store command clock _ _ ih =>
      have reached := @reaches_dispatch clock (fun _ => True) store (command.map .bytes)
        (fun _ _ => trivial)
      exact reached.keeps.scheduled ih
  | sweep now _ ih => exact ih.sweep
  | drain _ ih => exact ih.of_heap rfl rfl

theorem Reachable.storing (reachable : Reachable store) : store.Storing := by
  induction reachable with
  | init maxmemory policy => rintro key content ⟨⟩
  | dispatch clock _ deliverable ih =>
      exact (reaches_dispatch fun _ => storable_of_mem deliverable.sizes).storing ih
  | sweep now _ ih => exact (Store.Includes.of_purged (Store.purged_sweep _ now)).storing ih
  | drain _ ih => exact ih

theorem Reachable.sound (reachable : Reachable store) :
    store.Sound store.maxmemory store.policy := by
  have self {maxmemory : Nat} {policy : Policy} {store : Store}
      (sound : store.Sound maxmemory policy) : store.Sound store.maxmemory store.policy := by
    rwa [sound.limit, sound.evicts]
  induction reachable with
  | init maxmemory policy => exact Store.sound_init maxmemory policy
  | @dispatch store command clock _ _ ih =>
      exact self ((@reaches_dispatch clock (fun _ => True) store (command.map .bytes)
        fun _ _ => trivial).sound ih)
  | sweep now _ ih => exact self (ih.call now .sweepExpired)
  | drain _ ih => exact self (ih.operate .drainEvictions)

/-- A command as a connection delivers it, with the store that it meets. -/
structure Exchange where
  clock : Clock
  store : Store
  command : List Bytes

namespace Exchange

/-- What `dispatch` returns. -/
def outcome (step : Exchange) : Except Raised Value :=
  (dispatch step.clock step.store (step.command.map .bytes)).1

/-- The command gets a reply, which is read back as that reply with nothing of what
follows. -/
def Answered (step : Exchange) : Prop :=
  ∃ reply, step.outcome = .ok reply ∧
    ∀ rest, readReply (encode reply ++ rest) = .ok (reply.normal, rest)

/-- The command raises nothing past `dispatch`, its name fits on a line if it is
unknown, and its reply is within the limits of a reader if it is known. -/
def Answerable (step : Exchange) : Prop :=
  Convertible (step.command.map .bytes) ∧
    match Command.ofCommand (step.command.map .bytes) with
    | none => ∀ head ∈ step.command.head?, Value.FitsLine
        ("ERR unknown command '".toList ++ decodeUtf8 head ++ "'".toList)
    | some found => found.Presentable step.clock step.store (step.command.tail.map .bytes)

end Exchange

theorem dispatch_unknown_reply {clock : Clock} {command : List Bytes}
    (unknown : Command.ofCommand (command.map .bytes) = none) :
    ∃ text, (dispatch clock store (command.map .bytes)).1 = .ok (.error text) ∧
      (Value.FitsLine text ↔ ∀ head ∈ command.head?, Value.FitsLine
        ("ERR unknown command '".toList ++ decodeUtf8 head ++ "'".toList)) := by
  cases command with
  | nil =>
      refine ⟨"ERR empty command".toList, rfl, ?_⟩
      simp only [List.head?_nil, Option.not_mem_none, false_implies, implies_true, iff_true]
      decide +kernel
  | cons head args =>
      rw [List.map_cons, Command.ofCommand] at unknown
      refine ⟨_, by simp only [List.map_cons, dispatch, unknown]; rfl, ?_⟩
      simp [toText]

/-- The reply to a name of the table is within the limits when the store and the
command are. -/
theorem dispatch_known_reply {clock : Clock} {command : List Bytes} {found : Command}
    (reachable : Reachable store) (deliverable : Deliverable command)
    (known : Command.ofCommand (command.map .bytes) = some found)
    (fine : raises (command.map .bytes) = false) :
    ∃ reply, (dispatch clock store (command.map .bytes)).1 = .ok reply ∧ reply.Shallow ∧
      (reply.Sendable ↔ found.Presentable clock store (command.tail.map .bytes)) := by
  have storing := reachable.storing
  cases command with
  | nil => cases known
  | cons head args =>
      have storable : ∀ arg ∈ args.map Arg.bytes, Storable arg := fun _ =>
        storable_of_mem fun data member => deliverable.sizes data (List.mem_cons_of_mem _ member)
      have count : (args.map Arg.bytes).length ≤ MAX_ARRAY_LENGTH := by
        rw [List.length_map]
        exact (Nat.le_succ _).trans deliverable.count
      rw [raises_of_known known, List.map_cons, List.tail_cons] at fine
      rw [List.map_cons, Command.ofCommand] at known
      have named : upper (toText (.bytes head)) = found.name :=
        (Command.ofName_eq_some_iff.mp known).symm
      simp only [List.map_cons, dispatch, known, List.tail_cons]
      have escapes := escaping_handler clock store (args.map .bytes) found
      rw [fine] at escapes
      cases outcome : found.handler clock store (args.map .bytes) with
      | mk result left =>
          have ran : (found.handler clock store (args.map .bytes)).1 = result := by
            rw [outcome]
          cases result with
          | ok reply =>
              exact ⟨reply, rfl, handler_reply storing reachable.scheduled storable count ran⟩
          | error raised =>
              have presentable := presentable_of_error ran
              have replies {text : Text} (fits : Value.FitsLine text) :
                  (Value.error text).Shallow ∧ ((Value.error text).Sendable ↔
                    found.Presentable clock store (args.map .bytes)) :=
                ⟨trivial, iff_of_true fits presentable⟩
              rw [outcome] at escapes
              cases raised with
              | wrongArity =>
                  refine ⟨_, rfl, replies ?_⟩
                  rw [named]
                  exact fitsLine_wrongArity found
              | badArgument message =>
                  exact ⟨_, rfl, replies (handler_message storing ran).fitsLine⟩
              | valueError message => cases escapes
              | overflowError => cases escapes

/-- A command that is read gets its reply as one frame exactly when it is
answerable. -/
theorem Exchange.answered_iff {step : Exchange} (reachable : Reachable step.store)
    (deliverable : Deliverable step.command) : step.Answered ↔ step.Answerable := by
  have raising := isOk_dispatch step.clock step.store (step.command.map .bytes)
  constructor
  · rintro ⟨reply, returned, read⟩
    have readAlone := read []
    rw [List.append_nil] at readAlone
    rw [show (dispatch step.clock step.store (step.command.map .bytes)).1 = .ok reply from
      returned] at raising
    have fine : raises (step.command.map .bytes) = false := by
      simpa [Except.isOk, Except.toBool] using raising
    refine ⟨(not_raises_iff _).mp fine, ?_⟩
    cases known : Command.ofCommand (step.command.map .bytes) with
    | none =>
        obtain ⟨text, done, fits⟩ := @dispatch_unknown_reply step.store step.clock _ known
        obtain rfl := Except.ok.inj (done.symm.trans returned)
        exact fits.mp (fitsLine_of_read readAlone)
    | some found =>
        obtain ⟨other, done, shallow, sendable⟩ :=
          @dispatch_known_reply step.store step.clock _ _ reachable deliverable known fine
        obtain rfl := Except.ok.inj (done.symm.trans returned)
        exact sendable.mp (sendable_of_read shallow readAlone)
  · rintro ⟨convertible, presentable⟩
    have answered {reply : Value} (returned : step.outcome = .ok reply)
        (sendable : reply.Sendable) : step.Answered :=
      ⟨reply, returned, readReply_encode sendable⟩
    cases known : Command.ofCommand (step.command.map .bytes) with
    | none =>
        rw [known] at presentable
        obtain ⟨text, done, fits⟩ := @dispatch_unknown_reply step.store step.clock _ known
        exact answered done (fits.mpr presentable)
    | some found =>
        rw [known] at presentable
        obtain ⟨reply, done, -, sendable⟩ :=
          @dispatch_known_reply step.store step.clock _ _ reachable deliverable known
            ((not_raises_iff _).mpr convertible)
        exact answered done (sendable.mpr presentable)

/-- The replies to the commands of a connection, one after the other. -/
theorem read_answers {steps : List Exchange} (answered : ∀ step ∈ steps, step.Answered) :
    ∃ replies : List Value, steps.map Exchange.outcome = replies.map .ok ∧
      ∀ rest, readMany readReply steps.length (replies.flatMap encode ++ rest) =
        .ok (replies.map Value.normal, rest) := by
  induction steps with
  | nil => exact ⟨[], rfl, fun _ => rfl⟩
  | cons step steps ih =>
      obtain ⟨reply, returned, read⟩ := answered step (List.mem_cons_self ..)
      obtain ⟨replies, outcomes, others⟩ :=
        ih fun other member => answered other (List.mem_cons_of_mem _ member)
      refine ⟨reply :: replies, ?_, ?_⟩
      · rw [List.map_cons, List.map_cons, returned, outcomes]
      · intro rest
        rw [List.flatMap_cons, List.append_assoc, List.length_cons, readMany, read]
        simp only [bind, Except.bind, others, List.map_cons]

/-- On a connection whose commands meet reachable stores, each command gets its
reply as one frame exactly when it is answerable; when all are, the replies that a
client reads are those of its commands, in order. -/
theorem replies_in_step {steps : List Exchange}
    (served : ∀ step ∈ steps, Reachable step.store ∧ Deliverable step.command) :
    (∀ step ∈ steps, (step.Answered ↔ step.Answerable)) ∧
      ((∀ step ∈ steps, step.Answerable) →
        ∃ replies : List Value, steps.map Exchange.outcome = replies.map .ok ∧
          ∀ rest, readMany readReply steps.length (replies.flatMap encode ++ rest) =
            .ok (replies.map Value.normal, rest)) := by
  have each : ∀ step ∈ steps, (step.Answered ↔ step.Answerable) := fun step member =>
    Exchange.answered_iff (served step member).1 (served step member).2
  exact ⟨each, fun answerable => read_answers fun step member =>
    (each step member).mpr (answerable step member)⟩

/-- A connection that sends one command to a fresh server. -/
def freshExchange (command : List Bytes) : Exchange :=
  ⟨Clock.epoch, .init 0 .allkeysLru, command⟩

theorem replies_in_step_echo :
    ∃ replies : List Value,
      [freshExchange [[69, 67, 72, 79], [13, 10]], freshExchange [[110, 111]]].map
          Exchange.outcome = replies.map .ok ∧
      ∀ rest, readMany readReply 2 (replies.flatMap encode ++ rest) =
        .ok (replies.map Value.normal, rest) := by
  refine (@replies_in_step [freshExchange [[69, 67, 72, 79], [13, 10]],
    freshExchange [[110, 111]]] ?_).2 ?_
  · rintro step member
    have fresh (command : List Bytes) : Reachable (freshExchange command).store :=
      .init 0 .allkeysLru
    simp only [List.mem_cons, List.not_mem_nil, or_false] at member
    rcases member with rfl | rfl
    · exact ⟨fresh _, by decide⟩
    · exact ⟨fresh _, by decide⟩
  · rintro step member
    simp only [List.mem_cons, List.not_mem_nil, or_false] at member
    rcases member with rfl | rfl
    · refine ⟨(not_raises_iff _).mp (by decide +kernel), ?_⟩
      have known : Command.ofCommand
          ((freshExchange [[69, 67, 72, 79], [13, 10]]).command.map .bytes) = some .echo := by
        decide +kernel
      rw [known]
      trivial
    · refine ⟨(not_raises_iff _).mp (by decide +kernel), ?_⟩
      have unknown :
          Command.ofCommand ((freshExchange [[110, 111]]).command.map .bytes) = none := by
        decide +kernel
      rw [unknown]
      rintro head ⟨⟩
      decide +kernel

/-- A name with a line feed, which the error reply repeats. -/
theorem not_answered_lineFeed :
    Deliverable [[97, 10, 98]] ∧ ¬ (freshExchange [[97, 10, 98]]).Answered := by
  refine ⟨by decide, ?_⟩
  rintro ⟨reply, returned, read⟩
  have unknown : Command.ofCommand ((freshExchange [[97, 10, 98]]).command.map .bytes) = none := by
    decide +kernel
  obtain ⟨text, done, fits⟩ :=
    @dispatch_unknown_reply (freshExchange [[97, 10, 98]]).store Clock.epoch _ unknown
  obtain rfl := Except.ok.inj (done.symm.trans returned)
  have readAlone := read []
  rw [List.append_nil] at readAlone
  exact absurd (fits.mp (fitsLine_of_read readAlone) _ rfl) (by decide +kernel)

end Exchanges

end MiniCache
