import MiniCache.CommandOutcome
import MiniCache.ProtocolRoundTrip
import MiniCache.StoreMemory

/-!
# Commands as calls of the store

Whatever a command does to a store is a series of store operations, with the
arguments of the command, and of changes to the two counters of lookups.  The
operations depend on the store only in a `SET`, which looks whether its key is there.
So an invariant of the operations holds after every command, on a store with any
memory limit.
-/

namespace MiniCache

/-- The arguments that a call can store. -/
def Call.Uses (allowed : Arg → Prop) : Call → Prop
  | .set key value _ => allowed key ∧ allowed value
  | .incr key _ => allowed key
  | .delete _ | .expire _ _ | .persist _ | .flush | .get _ | .existsKey _ | .ttl _ | .keys
  | .snapshot | .len | .sweepExpired => True

/-- One store becomes the other by calls at one instant, which store allowed
arguments only, and by counting lookups. -/
inductive Reaches (now : Time) (allowed : Arg → Prop) (store : Store) : Store → Prop
  | refl : Reaches now allowed store store
  | call {middle : Store} (call : Call) (reached : Reaches now allowed store middle)
      (uses : call.Uses allowed) : Reaches now allowed store (middle.call now call).2
  | count {middle : Store} (hits misses : Nat) (reached : Reaches now allowed store middle) :
      Reaches now allowed store { middle with hits := hits, misses := misses }

/-- The deadlines that a call gives. -/
def Call.Lasts (now : Time) (lasting : Time → Prop) : Call → Prop
  | .set _ _ lifetime => ∀ ttl ∈ lifetime, lasting (now + ttl)
  | .expire _ lifetime => lasting (now + lifetime)
  | _ => True

/-- The same where the deadlines that the calls give are restricted as well. -/
inductive Runs (now : Time) (allowed : Arg → Prop) (lasting : Time → Prop) (store : Store) :
    Store → Prop
  | refl : Runs now allowed lasting store store
  | call {middle : Store} (call : Call) (run : Runs now allowed lasting store middle)
      (uses : call.Uses allowed) (lasts : call.Lasts now lasting) :
      Runs now allowed lasting store (middle.call now call).2
  | count {middle : Store} (hits misses : Nat) (run : Runs now allowed lasting store middle) :
      Runs now allowed lasting store { middle with hits := hits, misses := misses }

/-- The lifetime that a command gives, counted from the reading of the clock. -/
def Command.lifespan (clock : Clock) (args : List Arg) : Command → Option Time
  | .set =>
      match parseSet args with
      | .error _ => none
      | .ok opts => opts.ttl
  | .expire =>
      match args with
      | [_, amount] =>
          match parseInt amount with
          | .error _ => none
          | .ok seconds => some (seconds / 1)
      | _ => none
  | .pexpire =>
      match args with
      | [_, amount] =>
          match parseInt amount with
          | .error _ => none
          | .ok milliseconds => some (milliseconds / 1000)
      | _ => none
  | .pexpireat =>
      match args with
      | [_, moment] =>
          match intOfText (toText moment) with
          | none => none
          | some unixMs =>
              if QuotientOverflows unixMs then none
              else some ((unixMs : Time) / 1000 - clock.time)
      | _ => none
  | _ => none

/-- These calls, at one instant, turn one store into the other, up to the counts of
lookups. -/
inductive Performs (now : Time) (store : Store) : List Call → Store → Prop
  | refl : Performs now store [] store
  | call {calls : List Call} {middle : Store} (call : Call)
      (earlier : Performs now store calls middle) :
      Performs now store (calls ++ [call]) (middle.call now call).2
  | count {calls : List Call} {middle : Store} (hits misses : Nat)
      (earlier : Performs now store calls middle) :
      Performs now store calls { middle with hits := hits, misses := misses }

/-- How a `SET` looks at its key. -/
def SetOptions.lookups (opts : SetOptions) : List Call :=
  .existsKey opts.key :: if opts.get then [.get opts.key] else []

/-- The calls of a `SET`. -/
def SetOptions.calls (opts : SetOptions) (present : Bool) : List Call :=
  opts.lookups ++ if opts.blocked present then [] else [.set opts.key opts.value opts.ttl]

/-- The calls of an `MSET`. -/
def pairCalls : List Arg → List Call
  | key :: value :: rest => .set key value none :: pairCalls rest
  | _ => []

/-- The calls of a command on a store with these live contents. -/
def Command.calls (clock : Clock) (dict : OrderedDict Arg Content) (args : List Arg) :
    Command → List Call
  | .set =>
      match parseSet args with
      | .error _ => []
      | .ok opts => opts.calls (dict.get? opts.key).isSome
  | .mset => if args.length < 2 ∨ args.length % 2 = 1 then [] else pairCalls args
  | .incr =>
      match args with
      | [key] => [.incr key 1]
      | _ => []
  | .decr =>
      match args with
      | [key] => [.incr key (-1)]
      | _ => []
  | .incrby =>
      match args with
      | [key, amount] => (parseInt amount).toOption.toList.map fun delta => .incr key (1 * delta)
      | _ => []
  | .decrby =>
      match args with
      | [key, amount] => (parseInt amount).toOption.toList.map fun delta => .incr key (-1 * delta)
      | _ => []
  | .del => args.map .delete
  | .expire =>
      match args with
      | [key, amount] =>
          (parseInt amount).toOption.toList.map fun number => .expire key (number / 1)
      | _ => []
  | .pexpire =>
      match args with
      | [key, amount] =>
          (parseInt amount).toOption.toList.map fun number => .expire key (number / 1000)
      | _ => []
  | .pexpireat =>
      match args with
      | [key, moment] =>
          match intOfText (toText moment) with
          | none => []
          | some unixMs =>
              if QuotientOverflows unixMs then []
              else [.expire key ((unixMs : Time) / 1000 - clock.time)]
      | _ => []
  | .persist =>
      match args with
      | [key] => [.persist key]
      | _ => []
  | .flushdb => if args = [] then [.flush] else []
  | .get =>
      match args with
      | [key] => [.get key]
      | _ => []
  | .mget | .existsKey => args.map .get
  | .ttl =>
      match args with
      | [key] => [.ttl key]
      | _ => []
  | .keys => if args.length ≤ 1 then [.keys] else []
  | .dbsize => if args = [] then [.len] else []
  | .ping | .echo => []

/-- The calls of a whole command, name and arguments. -/
def commandCalls (clock : Clock) (dict : OrderedDict Arg Content) (command : List Arg) :
    List Call :=
  match Command.ofCommand command with
  | none => []
  | some found => found.calls clock dict command.tail

section Performing

variable {clock : Clock} {now : Time} {store middle other : Store} {calls later : List Call}

theorem Performs.trans (first : Performs now store calls middle)
    (second : Performs now middle later other) : Performs now store (calls ++ later) other := by
  induction second with
  | refl =>
      rw [List.append_nil]
      exact first
  | call call _ ih =>
      rw [← List.append_assoc]
      exact ih.call call
  | count hits misses _ ih => exact ih.count hits misses

theorem performs_call (store : Store) (now : Time) (call : Call) :
    Performs now store [call] (store.call now call).2 :=
  Performs.refl.call call

theorem performs_lookup (clock : Clock) (store : Store) (key : Arg) :
    Performs clock.monotonic store [.get key] (lookup clock store key).2 := by
  have found := performs_call store clock.monotonic (.get key)
  unfold lookup
  dsimp only
  split
  · exact found.count _ _
  · exact found.count _ _

theorem performs_mgetLoop (clock : Clock) (keys : List Arg) (store : Store) :
    Performs clock.monotonic store (keys.map .get) (mgetLoop clock keys store).2 := by
  induction keys generalizing store with
  | nil => exact Performs.refl
  | cons key rest ih => exact (performs_lookup clock store key).trans (ih _)

theorem length_mgetLoop (clock : Clock) (keys : List Arg) (store : Store) :
    (mgetLoop clock keys store).1.length = keys.length := by
  induction keys generalizing store with
  | nil => rfl
  | cons key rest ih => exact congrArg Nat.succ (ih _)

theorem performs_existsLoop (clock : Clock) (keys : List Arg) (store : Store) :
    Performs clock.monotonic store (keys.map .get) (existsLoop clock keys store).2 := by
  induction keys generalizing store with
  | nil => exact Performs.refl
  | cons key rest ih => exact (performs_lookup clock store key).trans (ih _)

theorem performs_delLoop (clock : Clock) (keys : List Arg) (store : Store) :
    Performs clock.monotonic store (keys.map .delete) (delLoop clock keys store).2 := by
  induction keys generalizing store with
  | nil => exact Performs.refl
  | cons key rest ih => exact (performs_call store _ (.delete key)).trans (ih _)

theorem performs_msetLoop (clock : Clock) (pairs : List Arg) (store : Store) :
    Performs clock.monotonic store (pairCalls pairs) (msetLoop clock pairs store) := by
  induction pairs, store using msetLoop.induct clock with
  | case1 key value rest store ih =>
      rw [msetLoop, pairCalls]
      exact (performs_call store _ (.set key value none)).trans ih
  | case2 pairs store single =>
      rw [msetLoop, pairCalls]
      · exact Performs.refl
      · exact single
      · exact single

theorem performs_runIncr (clock : Clock) (store : Store) (key : Arg) (delta : Int) :
    Performs clock.monotonic store [.incr key delta] (runIncr clock store key delta).2 := by
  have called := performs_call store clock.monotonic (.incr key delta)
  unfold runIncr
  dsimp only
  split <;> exact called

theorem performs_afterLookup (clock : Clock) (store : Store) (opts : SetOptions) :
    Performs clock.monotonic store opts.lookups (afterLookup clock store opts) := by
  have found := performs_call store clock.monotonic (.existsKey opts.key)
  unfold afterLookup SetOptions.lookups
  dsimp only
  split_ifs
  · exact found.call (.get opts.key)
  · exact found

theorem performs_cmdSet (clock : Clock) (store : Store) (args : List Arg) :
    Performs clock.monotonic store
      (Command.set.calls clock (store.live clock.monotonic) args) (cmdSet clock store args).2 := by
  unfold Command.calls
  rcases cmdSet_cases clock store args with
    ⟨raised, parsed, done⟩ | ⟨opts, previous, parsed, blocked, done⟩ |
      ⟨opts, reply, parsed, free, -, done⟩ <;>
    simp only [done, parsed]
  · exact Performs.refl
  · rw [SetOptions.calls, blocked]
    have looked := performs_afterLookup clock store opts
    simpa using looked
  · rw [SetOptions.calls, free]
    exact (performs_afterLookup clock store opts).call (.set opts.key opts.value opts.ttl)

/-- A handler performs the calls of its command. -/
theorem performs_handler (clock : Clock) (store : Store) (command : Command) (args : List Arg) :
    Performs clock.monotonic store (command.calls clock (store.live clock.monotonic) args)
      (command.handler clock store args).2 := by
  cases command with
  | set => exact performs_cmdSet clock store args
  | mset =>
      simp only [Command.handler, cmdMset, Command.calls]
      split_ifs
      · exact Performs.refl
      · exact performs_msetLoop clock args store
  | mget =>
      simp only [Command.handler, cmdMget, Command.calls]
      split_ifs with short
      · rw [List.eq_nil_of_length_eq_zero (Nat.lt_one_iff.mp short)]
        exact Performs.refl
      · exact performs_mgetLoop clock args store
  | del =>
      simp only [Command.handler, cmdDel, Command.calls]
      split_ifs with short
      · rw [List.eq_nil_of_length_eq_zero (Nat.lt_one_iff.mp short)]
        exact Performs.refl
      · exact performs_delLoop clock args store
  | existsKey =>
      simp only [Command.handler, cmdExists, Command.calls]
      split_ifs with short
      · rw [List.eq_nil_of_length_eq_zero (Nat.lt_one_iff.mp short)]
        exact Performs.refl
      · exact performs_existsLoop clock args store
  | incr | decr =>
      rcases args with _ | ⟨key, _ | ⟨_, _⟩⟩
      · exact Performs.refl
      · exact performs_runIncr clock store key _
      · exact Performs.refl
  | incrby | decrby =>
      rcases args with _ | ⟨key, _ | ⟨amount, _ | ⟨_, _⟩⟩⟩
      case cons.cons.nil =>
        simp only [Command.handler, cmdIncrby, cmdDecrby, counterBy, Command.calls]
        cases parseInt amount with
        | error raised => exact Performs.refl
        | ok delta => exact performs_runIncr clock store key _
      all_goals exact Performs.refl
  | expire | pexpire =>
      rcases args with _ | ⟨key, _ | ⟨amount, _ | ⟨_, _⟩⟩⟩
      case cons.cons.nil =>
        simp only [Command.handler, cmdExpire, cmdPexpire, lifetime, Command.calls]
        cases parseInt amount with
        | error raised => exact Performs.refl
        | ok number => exact performs_call store _ (.expire key _)
      all_goals exact Performs.refl
  | pexpireat =>
      rcases args with _ | ⟨key, _ | ⟨moment, _ | ⟨_, _⟩⟩⟩
      case cons.cons.nil =>
        simp only [Command.handler, cmdPexpireat, Command.calls]
        cases intOfText (toText moment) with
        | none => exact Performs.refl
        | some unixMs =>
            dsimp only
            split_ifs
            · exact Performs.refl
            · exact performs_call store _ (.expire key _)
      all_goals exact Performs.refl
  | get =>
      rcases args with _ | ⟨key, _ | ⟨_, _⟩⟩
      · exact Performs.refl
      · exact performs_lookup clock store key
      · exact Performs.refl
  | ttl =>
      rcases args with _ | ⟨key, _ | ⟨_, _⟩⟩
      · exact Performs.refl
      · exact performs_call store _ (.ttl key)
      · exact Performs.refl
  | persist =>
      rcases args with _ | ⟨key, _ | ⟨_, _⟩⟩
      · exact Performs.refl
      · exact performs_call store _ (.persist key)
      · exact Performs.refl
  | keys =>
      rcases args with _ | ⟨first, _ | ⟨second, rest⟩⟩
      · exact performs_call store _ .keys
      · exact performs_call store _ .keys
      · rw [Command.calls, if_neg (by simp)]
        exact Performs.refl
  | flushdb =>
      rcases args with _ | ⟨_, _⟩
      · exact performs_call store clock.monotonic .flush
      · exact Performs.refl
  | dbsize =>
      rcases args with _ | ⟨_, _⟩
      · exact performs_call store _ .len
      · exact Performs.refl
  | ping =>
      rcases args with _ | ⟨_, _ | ⟨_, _⟩⟩
      all_goals exact Performs.refl
  | echo =>
      rcases args with _ | ⟨_, _ | ⟨_, _⟩⟩
      all_goals exact Performs.refl

/-- So does a whole command. -/
theorem performs_dispatch (clock : Clock) (store : Store) (command : List Arg) :
    Performs clock.monotonic store
      (commandCalls clock (store.live clock.monotonic) command)
      (dispatch clock store command).2 := by
  unfold commandCalls
  cases known : Command.ofCommand command with
  | none =>
      obtain ⟨message, done⟩ := dispatch_of_unknown known clock store
      rw [done]
      exact Performs.refl
  | some found =>
      obtain ⟨name, done⟩ := dispatch_of_known known clock store
      rw [done, replyTo_store]
      exact performs_handler clock store found command.tail

end Performing

section Reaching

variable {clock : Clock} {now : Time} {allowed : Arg → Prop} {lasting : Time → Prop}
  {store middle other : Store}

theorem Reaches.keeps (reached : Reaches now allowed store other) : Store.Keeps store other := by
  induction reached with
  | refl => exact Store.Keeps.refl store
  | call call _ _ ih => exact ih.trans (Store.keeps_call _ now call)
  | count hits misses _ ih =>
      exact ⟨fun scheduled => (ih.scheduled scheduled).of_heap rfl rfl,
        fun accounted => (ih.accounted accounted).of_data rfl rfl, ih.maxmemory, ih.policy⟩

theorem Runs.trans (first : Runs now allowed lasting store middle)
    (second : Runs now allowed lasting middle other) : Runs now allowed lasting store other := by
  induction second with
  | refl => exact first
  | call call _ uses lasts ih => exact ih.call call uses lasts
  | count hits misses _ ih => exact ih.count hits misses

theorem Runs.reaches (run : Runs now allowed lasting store other) :
    Reaches now allowed store other := by
  induction run with
  | refl => exact Reaches.refl
  | call call _ uses _ ih => exact ih.call call uses
  | count hits misses _ ih => exact ih.count hits misses

theorem Performs.runs {calls : List Call} (performs : Performs now store calls other)
    (allows : ∀ call ∈ calls, call.Uses allowed ∧ call.Lasts now lasting) :
    Runs now allowed lasting store other := by
  induction performs with
  | refl => exact Runs.refl
  | call call _ ih =>
      obtain ⟨uses, lasts⟩ := allows call (by simp)
      exact (ih fun earlier member => allows earlier (List.mem_append_left _ member)).call call
        uses lasts
  | count hits misses _ ih => exact (ih allows).count hits misses

theorem allows_lookups (opts : SetOptions) :
    ∀ call ∈ opts.lookups, call.Uses allowed ∧ call.Lasts now lasting := by
  intro call member
  unfold SetOptions.lookups at member
  split_ifs at member <;> simp only [List.mem_cons, List.not_mem_nil, or_false] at member
  · rcases member with rfl | rfl <;> exact ⟨trivial, trivial⟩
  · obtain rfl := member
    exact ⟨trivial, trivial⟩

theorem allows_pairCalls {pairs : List Arg} (uses : ∀ arg ∈ pairs, allowed arg) :
    ∀ call ∈ pairCalls pairs, call.Uses allowed ∧ call.Lasts now lasting := by
  induction pairs using pairCalls.induct with
  | case1 key value rest ih =>
      rw [pairCalls, List.forall_mem_cons]
      refine ⟨⟨⟨uses key (by simp), uses value (by simp)⟩, nofun⟩, ?_⟩
      exact ih fun arg member => uses arg (by simp [member])
  | case2 pairs single =>
      rw [pairCalls]
      · exact List.forall_mem_nil _
      · exact single

/-- The calls of a command use its arguments and give its lifetime. -/
theorem allows_calls {command : Command} {dict : OrderedDict Arg Content} {args : List Arg}
    (uses : ∀ arg ∈ args, allowed arg)
    (lasts : ∀ ttl ∈ command.lifespan clock args, lasting (clock.monotonic + ttl)) :
    ∀ call ∈ command.calls clock dict args,
      call.Uses allowed ∧ call.Lasts clock.monotonic lasting := by
  intro call member
  cases command with
  | set =>
      simp only [Command.calls] at member
      simp only [Command.lifespan] at lasts
      cases parsed : parseSet args with
      | error raised => simp [parsed] at member
      | ok opts =>
          rw [parsed] at member lasts
          rcases List.mem_append.mp member with looks | writes
          · exact allows_lookups opts call looks
          · obtain ⟨options, rfl⟩ := parseSet_args parsed
            split_ifs at writes
            · cases writes
            · obtain rfl := List.mem_singleton.mp writes
              exact ⟨⟨uses _ (by simp), uses _ (by simp)⟩, lasts⟩
  | mset =>
      simp only [Command.calls] at member
      split_ifs at member
      · cases member
      · exact allows_pairCalls uses call member
  | incr | decr =>
      rcases args with _ | ⟨key, _ | ⟨_, _⟩⟩
      · cases member
      · obtain rfl := List.mem_singleton.mp member
        exact ⟨uses key (by simp), trivial⟩
      · cases member
  | incrby | decrby =>
      rcases args with _ | ⟨key, _ | ⟨amount, _ | ⟨_, _⟩⟩⟩
      case cons.cons.nil =>
        obtain ⟨delta, -, rfl⟩ := List.mem_map.mp member
        exact ⟨uses key (by simp), trivial⟩
      all_goals cases member
  | expire | pexpire =>
      rcases args with _ | ⟨key, _ | ⟨amount, _ | ⟨_, _⟩⟩⟩
      case cons.cons.nil =>
        simp only [Command.calls] at member
        simp only [Command.lifespan] at lasts
        cases parsed : parseInt amount with
        | error raised => simp [parsed, Except.toOption] at member
        | ok number =>
            rw [parsed] at member lasts
            obtain rfl := List.mem_singleton.mp member
            exact ⟨trivial, lasts _ rfl⟩
      all_goals cases member
  | pexpireat =>
      rcases args with _ | ⟨key, _ | ⟨moment, _ | ⟨_, _⟩⟩⟩
      case cons.cons.nil =>
        simp only [Command.calls] at member
        simp only [Command.lifespan] at lasts
        cases read : intOfText (toText moment) with
        | none => simp [read] at member
        | some unixMs =>
            simp only [read] at member lasts
            split_ifs at member with overflows
            · cases member
            · rw [if_neg overflows] at lasts
              obtain rfl := List.mem_singleton.mp member
              exact ⟨trivial, lasts _ rfl⟩
      all_goals cases member
  | del | mget | existsKey =>
      obtain ⟨key, -, rfl⟩ := List.mem_map.mp member
      exact ⟨trivial, trivial⟩
  | get | ttl | persist =>
      rcases args with _ | ⟨key, _ | ⟨_, _⟩⟩
      · cases member
      · obtain rfl := List.mem_singleton.mp member
        exact ⟨trivial, trivial⟩
      · cases member
  | keys | flushdb | dbsize =>
      simp only [Command.calls] at member
      split_ifs at member
      · obtain rfl := List.mem_singleton.mp member
        exact ⟨trivial, trivial⟩
      · cases member
  | ping | echo => cases member

/-- A command makes calls with its arguments and its lifetime. -/
theorem runs_dispatch {command : List Arg} (uses : ∀ arg ∈ command, allowed arg)
    (lasts : ∀ found, Command.ofCommand command = some found →
      ∀ ttl ∈ found.lifespan clock command.tail, lasting (clock.monotonic + ttl)) :
    Runs clock.monotonic allowed lasting store (dispatch clock store command).2 := by
  refine (performs_dispatch clock store command).runs fun call member => ?_
  unfold commandCalls at member
  split at member
  · cases member
  · rename_i found known
    exact allows_calls (fun arg isArg => uses arg (List.mem_of_mem_tail isArg))
      (lasts found known) call member

theorem reaches_dispatch {command : List Arg} (uses : ∀ arg ∈ command, allowed arg) :
    Reaches clock.monotonic allowed store (dispatch clock store command).2 := by
  have run : Runs clock.monotonic allowed (fun _ => True) store
      (dispatch clock store command).2 :=
    runs_dispatch uses fun _ _ _ _ => trivial
  exact run.reaches

end Reaching

section Contents

/-- An argument that a client can send. -/
def Storable (arg : Arg) : Prop := ∃ data, arg = .bytes data ∧ data.length ≤ MAX_BULK_LENGTH

theorem natAbs_lt_of_inInt64 {number : Int} (inRange : InInt64 number) :
    number.natAbs < 10 ^ 25 := by
  obtain ⟨lower, upper⟩ := inRange
  omega

theorem length_intText_wire {number : Int} (inRange : InInt64 number) :
    (encodeUtf8 (intText number)).length ≤ MAX_BULK_LENGTH := by
  rw [length_encodeUtf8_intText]
  exact (length_intText_le (natAbs_lt_of_inInt64 inRange) (by decide)).trans (by decide)

theorem storable_of_mem {args : List Bytes} (sizes : ∀ data ∈ args, data.length ≤ MAX_BULK_LENGTH)
    {arg : Arg} (member : arg ∈ args.map Arg.bytes) : Storable arg := by
  obtain ⟨data, inArgs, rfl⟩ := List.mem_map.mp member
  exact ⟨data, rfl, sizes data inArgs⟩

theorem inInt64_of_incremented {current : Option Arg} {delta new : Int}
    (done : Store.incremented current delta = .ok new) : InInt64 new := by
  unfold Store.incremented at done
  split at done
  · split_ifs at done with inRange
    cases done
    exact inRange
  · split at done
    · cases done
    · split_ifs at done with inRange
      cases done
      exact inRange

theorem storable_incrementedValue {key : Arg} {current : Option Arg} {new : Int}
    (sample : Storable (current.getD key)) (inRange : InInt64 new) :
    Storable (Store.incrementedValue key current new) := by
  obtain ⟨data, same, -⟩ := sample
  rw [Store.incrementedValue, same]
  exact ⟨_, rfl, length_intText_wire inRange⟩

namespace Store

/-- The keys and values of a store are what clients can send. -/
def Storing (store : Store) : Prop :=
  ∀ key content, store.plain key = some content → Storable key ∧ Storable content.1

variable {store other : Store} {now : Time}

theorem Includes.storing (includes : Includes store other) (storing : Storing store) :
    Storing other := by
  intro key content held
  obtain ⟨deadline, inStore⟩ := includes key content held
  exact storing key (content.1, deadline) inStore

theorem storing_put {key value : Arg} (storing : Storing store) (storableKey : Storable key)
    (storableValue : Storable value) (expireAt : Option Time) :
    Storing (store.put key value expireAt) := by
  intro other content held
  rw [plain_put] at held
  split_ifs at held with same
  · obtain rfl := Option.some.inj held
    exact ⟨same ▸ storableKey, storableValue⟩
  · exact storing other content held

/-- Every call keeps the contents storable. -/
theorem storing_call (storing : Storing store) {call : Call} (uses : call.Uses Storable) :
    Storing (store.call now call).2 := by
  cases call with
  | set key value ttl =>
      have core : Storing (store.setCore now key value ttl) := by
        have stored := @storing_put { store with writes := store.writes + 1 } key value storing
          uses.1 uses.2 (ttl.map (now + ·))
        exact (includes_of_data (by rw [setCore_data]; rfl)).storing stored
      exact (includes_evict _ now).storing core
  | incr key delta =>
      simp only [Store.call]
      have fetched : Storing (store.fetch now key).2 :=
        (Includes.of_purged (purged_fetch store now key)).storing storing
      rcases incr_cases store now key delta with ⟨_, -, failed⟩ | ⟨new, done, stored⟩
      · rw [failed]
        exact fetched
      · have sample : Storable ((((store.live now).get? key).map Prod.fst).getD key) := by
          rw [← live_plain]
          cases live : ExpiringMap.live now (store.plain key) with
          | none => exact uses
          | some content =>
              exact (storing key content (ExpiringMap.live_eq_some_iff.mp live).1).2
        rw [stored]
        refine (includes_evict _ now).storing ?_
        exact @storing_put { (store.fetch now key).2 with writes := store.writes + 1 } key _
          fetched uses (storable_incrementedValue sample (inInt64_of_incremented done)) _
  | delete | expire | persist | flush | get | existsKey | ttl | keys | snapshot | len
  | sweepExpired => exact (includes_call id).storing storing

end Store

theorem Reaches.storing {now : Time} {store other : Store}
    (reached : Reaches now Storable store other) (storing : Store.Storing store) :
    Store.Storing other := by
  induction reached with
  | refl => exact storing
  | call call _ uses ih => exact Store.storing_call ih uses
  | count hits misses _ ih => exact ih

theorem Reaches.sound {now : Time} {allowed : Arg → Prop} {store other : Store}
    {maxmemory : Nat} {policy : Policy} (reached : Reaches now allowed store other)
    (sound : store.Sound maxmemory policy) : other.Sound maxmemory policy := by
  induction reached with
  | refl => exact sound
  | call call _ _ ih => exact ih.call now call
  | count hits misses _ ih =>
      exact ⟨ih.scheduled.of_heap rfl rfl, ih.accounted.of_data rfl rfl, ih.limit, ih.evicts,
        ih.capped⟩

end Contents

end MiniCache
