import MiniCache.Commands
import MiniCache.StoreRefinement

/-!
# What the commands do to the plain map

On a store without a memory limit every command of the table acts on the live
contents as a short list of effects, which is a function of its arguments and of
the wall clock; only `SET` with `NX` or `XX` looks at the map first.  Commands
that only look leave the contents of any store alone.
-/

namespace MiniCache

open ExpiringMap (Cell Effect Action Purged applyAll mapDeadline)

section Representation

/-- The moment at which the monotonic clock reads what the wall clock reads. -/
def Clock.toMonotonic (clock : Clock) (moment : Time) : Time :=
  moment + (clock.monotonic - clock.time)

theorem Clock.toMonotonic_strictMono (clock : Clock) : StrictMono clock.toMonotonic :=
  fun _ _ less => add_lt_add_left less _

@[simp]
theorem Clock.toMonotonic_time (clock : Clock) :
    clock.toMonotonic clock.time = clock.monotonic := by
  unfold Clock.toMonotonic
  ring

/-- A store without a memory limit, and thus without pending evictions, that
holds the cells of a plain map with deadlines on the wall clock, less some expired
ones. -/
structure Represents (clock : Clock) (store : Store) (plain : PlainMap) : Prop where
  unlimited : store.maxmemory = 0
  drained : store.evicted = []
  holds : ∀ key,
    Purged clock.monotonic (mapDeadline clock.toMonotonic (plain key)) (store.plain key)

variable {clock : Clock} {store other : Store} {plain : PlainMap}

theorem Represents.get? (represents : Represents clock store plain) (key : Arg) :
    (store.live clock.monotonic).get? key =
      mapDeadline clock.toMonotonic (ExpiringMap.live clock.time (plain key)) := by
  rw [← Store.live_plain, (represents.holds key).live_eq,
    ← ExpiringMap.live_mapDeadline clock.toMonotonic_strictMono, clock.toMonotonic_time]

theorem Represents.isSome (represents : Represents clock store plain) (key : Arg) :
    ((store.live clock.monotonic).get? key).isSome =
      (ExpiringMap.live clock.time (plain key)).isSome := by
  rw [represents.get? key, mapDeadline, Option.isSome_map]

/-- Time passes alike on both clocks. -/
theorem Represents.later {later : Clock} (represents : Represents clock store plain)
    (offset : later.monotonic - later.time = clock.monotonic - clock.time)
    (inOrder : clock.time ≤ later.time) : Represents later store plain := by
  have monotonicInOrder : clock.monotonic ≤ later.monotonic := by linarith
  refine ⟨represents.unlimited, represents.drained, ?_⟩
  have sameClock : later.toMonotonic = clock.toMonotonic := by
    funext moment
    rw [Clock.toMonotonic, Clock.toMonotonic, offset]
  rw [sameClock]
  exact fun key => (represents.holds key).mono monotonicInOrder

/-- A call with an effect. -/
theorem Represents.call (represents : Represents clock store plain) (call : Call)
    {effect : Effect Arg Arg Time}
    (same : call.effect clock.monotonic = some (effect.mapDeadline clock.toMonotonic)) :
    Represents clock (store.call clock.monotonic call).2
      (effect.apply clock.time plain) := by
  refine ⟨(Store.keeps_call store clock.monotonic call).maxmemory.trans represents.unlimited,
    (Store.evicted_call store _ represents.unlimited call).trans represents.drained, ?_⟩
  have commutes := effect.apply_mapDeadline clock.toMonotonic_strictMono clock.time plain
  rw [clock.toMonotonic_time] at commutes
  intro key
  have acted := Store.purged_call store clock.monotonic represents.unlimited call key
  rw [Call.apply, same] at acted
  have held := Purged.applyEffect represents.holds (effect.mapDeadline clock.toMonotonic) key
  rw [commutes] at held
  exact held.trans acted

/-- The empty store. -/
theorem represents_init (clock : Clock) (policy : Policy) :
    Represents clock (Store.init 0 policy) fun _ => none :=
  ⟨rfl, rfl, fun _ => Purged.refl _ _⟩

end Representation

section Observation

/-- An operation that only looks: it purges expired cells at most and leaves the
write counter and the pending evictions alone. -/
structure Observes (now : Time) (store other : Store) : Prop
    extends Store.Keeps store other where
  cells : ∀ key, Purged now (store.plain key) (other.plain key)
  writes : other.writes = store.writes
  evicted : other.evicted = store.evicted

variable {now : Time} {store middle other : Store}

theorem Observes.refl (now : Time) (store : Store) : Observes now store store :=
  ⟨Store.Keeps.refl store, fun _ => Purged.refl now _, rfl, rfl⟩

theorem Observes.view (observes : Observes now store other) (key : Arg) :
    (other.live now).get? key = (store.live now).get? key := by
  rw [← Store.live_plain, ← Store.live_plain, (observes.cells key).live_eq]

theorem Observes.trans (first : Observes now store middle)
    (second : Observes now middle other) : Observes now store other :=
  ⟨first.toKeeps.trans second.toKeeps,
    fun key => (first.cells key).trans (second.cells key),
    second.writes.trans first.writes, second.evicted.trans first.evicted⟩

theorem Observes.represents {clock : Clock} {plain : PlainMap}
    (observes : Observes clock.monotonic store other)
    (represents : Represents clock store plain) : Represents clock other plain :=
  ⟨observes.maxmemory.trans represents.unlimited, observes.evicted.trans represents.drained,
    fun key => (represents.holds key).trans (observes.cells key)⟩

theorem observes_fetch (now : Time) (store : Store) (key : Arg) :
    Observes now store (store.fetch now key).2 :=
  ⟨Store.keeps_fetch store now key, Store.purged_fetch store now key,
    (Store.fetch_frame store now key).2.1, (Store.fetch_frame store now key).2.2⟩

theorem observes_get (now : Time) (store : Store) (key : Arg) :
    Observes now store (store.get now key).2 := by
  have frame := Store.fetch_frame store now key
  refine ⟨Store.keeps_get store now key, Store.purged_get store now key, ?_, ?_⟩
  · unfold Store.get
    split <;> rename_i same <;> rw [same] at frame <;> exact frame.2.1
  · unfold Store.get
    split <;> rename_i same <;> rw [same] at frame <;> exact frame.2.2

theorem observes_sweep (now : Time) (store : Store) :
    Observes now store (store.sweepExpired now).2 :=
  ⟨Store.keeps_sweep store now, Store.purged_sweep store now,
    (Store.sweep_frame store).2.2.1, (Store.sweep_frame store).2.2.2⟩

theorem observes_lookup (clock : Clock) (store : Store) (key : Arg) :
    Observes clock.monotonic store (lookup clock store key).2 := by
  have observes := observes_get clock.monotonic store key
  unfold lookup
  dsimp only
  split <;>
    exact ⟨⟨fun scheduled => (observes.scheduled scheduled).of_heap rfl rfl,
      fun accounted => (observes.accounted accounted).of_data rfl rfl,
      observes.maxmemory, observes.policy⟩, observes.cells, observes.writes,
      observes.evicted⟩

theorem observes_mgetLoop (clock : Clock) (keys : List Arg) (store : Store) :
    Observes clock.monotonic store (mgetLoop clock keys store).2 := by
  induction keys generalizing store with
  | nil => exact Observes.refl _ store
  | cons key rest ih => exact (observes_lookup clock store key).trans (ih _)

theorem observes_existsLoop (clock : Clock) (keys : List Arg) (store : Store) :
    Observes clock.monotonic store (existsLoop clock keys store).2 := by
  induction keys generalizing store with
  | nil => exact Observes.refl _ store
  | cons key rest ih => exact (observes_lookup clock store key).trans (ih _)

/-- Commands that can change the contents of a store. -/
def Command.Writes : Command → Prop
  | .set | .mset | .incr | .decr | .incrby | .decrby | .del | .expire | .pexpire
  | .pexpireat | .persist | .flushdb => True
  | .ping | .echo | .get | .mget | .existsKey | .ttl | .keys | .dbsize => False

instance : DecidablePred Command.Writes := fun command => by
  cases command <;> unfold Command.Writes <;> infer_instance

/-- The other commands only look, on any store. -/
theorem observes_handler {command : Command} (reads : ¬ command.Writes)
    (clock : Clock) (store : Store) (args : List Arg) :
    Observes clock.monotonic store (command.handler clock store args).2 := by
  have same := Observes.refl clock.monotonic store
  cases command with
  | ping => unfold Command.handler cmdPing; dsimp only; split <;> exact same
  | echo => unfold Command.handler cmdEcho; dsimp only; split <;> exact same
  | get =>
      unfold Command.handler cmdGet
      dsimp only
      split
      · exact observes_lookup clock store _
      · exact same
  | mget =>
      unfold Command.handler cmdMget
      dsimp only
      split_ifs
      · exact same
      · exact observes_mgetLoop clock args store
  | existsKey =>
      unfold Command.handler cmdExists
      dsimp only
      split_ifs
      · exact same
      · exact observes_existsLoop clock args store
  | ttl =>
      unfold Command.handler cmdTtl
      dsimp only
      split
      · rw [Store.ttl_store]
        exact observes_fetch _ store _
      · exact same
  | keys =>
      unfold Command.handler cmdKeys
      dsimp only
      split
      · exact observes_sweep _ store
      · exact observes_sweep _ store
      · exact same
  | dbsize =>
      unfold Command.handler cmdDbsize
      dsimp only
      split
      · exact observes_sweep _ store
      · exact same
  | set | mset | incr | decr | incrby | decrby | del | expire | pexpire | pexpireat
  | persist | flushdb => exact absurd trivial reads

end Observation

section Effects

/-- The writes of the pairs of an `MSET`. -/
def pairWrites : List Arg → List (Effect Arg Arg Time)
  | key :: value :: rest => .act key (.write value none) :: pairWrites rest
  | _ => []

/-- The effect of a counter command. -/
def counterEffect (key : Arg) (delta : Int) : Effect Arg Arg Time :=
  .act key (.modify (incrementUpdate key delta))

/-- The effects of a counter command with a fixed step. -/
def counterEffects (delta : Int) : List Arg → List (Effect Arg Arg Time)
  | [key] => [counterEffect key delta]
  | _ => []

/-- The effects of a counter command whose step is an argument. -/
def counterByEffects (sign : Int) : List Arg → List (Effect Arg Arg Time)
  | [key, amount] =>
      match parseInt amount with
      | .error _ => []
      | .ok delta => [counterEffect key (sign * delta)]
  | _ => []

/-- The effects of a command that gives a key a lifetime. -/
def lifetimeEffects (perSecond time : Time) : List Arg → List (Effect Arg Arg Time)
  | [key, amount] =>
      match parseInt amount with
      | .error _ => []
      | .ok number => [.act key (.setDeadline (time + number / perSecond))]
  | _ => []

/-- The effects of `SET`, which writes unless its options hold it back. -/
def setEffects (time : Time) (plain : PlainMap) (args : List Arg) :
    List (Effect Arg Arg Time) :=
  match parseSet args with
  | .error _ => []
  | .ok opts =>
      if opts.blocked (ExpiringMap.live time (plain opts.key)).isSome then []
      else [.act opts.key (.write opts.value (opts.ttl.map (time + ·)))]

/-- The effects of `PEXPIREAT`, whose deadline is absolute. -/
def deadlineEffects : List Arg → List (Effect Arg Arg Time)
  | [key, moment] =>
      match intOfText (toText moment) with
      | none => []
      | some unixMs =>
          if QuotientOverflows unixMs then []
          else [.act key (.setDeadline ((unixMs : Time) / 1000))]
  | _ => []

def persistEffects : List Arg → List (Effect Arg Arg Time)
  | [key] => [.act key .persist]
  | _ => []

def flushEffects : List Arg → List (Effect Arg Arg Time)
  | [] => [.flush]
  | _ => []

/-- The effects of a command with its arguments, at a reading of the wall
clock. -/
def Command.effects (time : Time) (plain : PlainMap) (args : List Arg) :
    Command → List (Effect Arg Arg Time)
  | .set => setEffects time plain args
  | .mset => if args.length < 2 ∨ args.length % 2 = 1 then [] else pairWrites args
  | .incr => counterEffects 1 args
  | .decr => counterEffects (-1) args
  | .incrby => counterByEffects 1 args
  | .decrby => counterByEffects (-1) args
  | .del => args.map fun key => .act key .clear
  | .expire => lifetimeEffects 1 time args
  | .pexpire => lifetimeEffects 1000 time args
  | .pexpireat => deadlineEffects args
  | .persist => persistEffects args
  | .flushdb => flushEffects args
  | .ping | .echo | .get | .mget | .existsKey | .ttl | .keys | .dbsize => []

variable {clock : Clock} {store : Store} {plain : PlainMap}

theorem effects_of_reads {command : Command} (reads : ¬ command.Writes) (time : Time)
    (plain : PlainMap) (args : List Arg) : command.effects time plain args = [] := by
  cases command <;> first | rfl | exact absurd trivial reads

/-- A lifetime counted from now ends at one instant of both clocks. -/
theorem map_toMonotonic (clock : Clock) (ttl : Option Time) :
    (ttl.map (clock.time + ·)).map clock.toMonotonic = ttl.map (clock.monotonic + ·) := by
  cases ttl with
  | none => rfl
  | some ttl =>
      simp only [Option.map_some, Clock.toMonotonic, Option.some.injEq]
      ring

theorem Represents.set (represents : Represents clock store plain) (key value : Arg)
    (ttl : Option Time) :
    Represents clock (store.set clock.monotonic key value ttl)
      ((Effect.act key (.write value (ttl.map (clock.time + ·)))).apply clock.time
        plain) := by
  refine represents.call (.set key value ttl) ?_
  rw [Effect.mapDeadline, Action.mapDeadline, map_toMonotonic]
  rfl

theorem Represents.expire (represents : Represents clock store plain) (key : Arg)
    {ttl deadline : Time} (same : clock.monotonic + ttl = clock.toMonotonic deadline) :
    Represents clock (store.expire clock.monotonic key ttl).2
      ((Effect.act key (.setDeadline deadline)).apply clock.time plain) := by
  refine represents.call (.expire key ttl) ?_
  rw [Effect.mapDeadline, Action.mapDeadline, ← same]
  rfl

theorem represents_msetLoop (represents : Represents clock store plain)
    (args : List Arg) :
    Represents clock (msetLoop clock args store)
      (applyAll clock.time (pairWrites args) plain) := by
  induction args, store using msetLoop.induct clock generalizing plain with
  | case1 key value rest store ih =>
      rw [msetLoop, pairWrites, ExpiringMap.applyAll_cons]
      exact ih (represents.set key value none)
  | case2 args store single =>
      rw [msetLoop, pairWrites, ExpiringMap.applyAll_nil]
      · exact represents
      · exact single
      · exact single

theorem represents_delLoop (represents : Represents clock store plain)
    (args : List Arg) :
    Represents clock (delLoop clock args store).2
      (applyAll clock.time (args.map fun key => .act key .clear) plain) := by
  induction args generalizing store plain with
  | nil => exact represents
  | cons key rest ih => exact ih (represents.call (.delete key) rfl)

/-- Clearing some keys. -/
theorem applyAll_clear (time : Time) (keys : List Arg) (plain : PlainMap) (key : Arg) :
    applyAll time (keys.map fun key => .act key .clear) plain key =
      if key ∈ keys then none else plain key := by
  induction keys generalizing plain with
  | nil => rfl
  | cons first rest ih =>
      rw [List.map_cons, ExpiringMap.applyAll_cons, ih]
      by_cases later : key ∈ rest
      · rw [if_pos later, if_pos (List.mem_cons_of_mem first later)]
      · rw [if_neg later]
        by_cases here : key = first
        · subst here
          rw [ExpiringMap.Effect.apply_act_self, if_pos (List.mem_cons_self ..)]
          rfl
        · rw [ExpiringMap.Effect.apply_act_of_ne _ _ _ (Ne.symm here),
            if_neg (by simp [here, later])]

theorem represents_runIncr (represents : Represents clock store plain) (key : Arg)
    (delta : Int) :
    Represents clock (runIncr clock store key delta).2
      ((counterEffect key delta).apply clock.time plain) := by
  have after := @Represents.call clock store plain represents (.incr key delta)
    (counterEffect key delta) rfl
  unfold runIncr
  dsimp only
  split <;> exact after

/-- The store after `SET` has looked at its key. -/
def afterLookup (clock : Clock) (store : Store) (opts : SetOptions) : Store :=
  let found := store.existsKey clock.monotonic opts.key
  if opts.get then (found.2.get clock.monotonic opts.key).2 else found.2

theorem observes_afterLookup (clock : Clock) (store : Store) (opts : SetOptions) :
    Observes clock.monotonic store (afterLookup clock store opts) := by
  have first := observes_get clock.monotonic store opts.key
  unfold afterLookup Store.existsKey
  dsimp only
  split_ifs
  · exact first.trans (observes_get _ _ _)
  · exact first

theorem existsKey_result (store : Store) (now : Time) (key : Arg) :
    (store.existsKey now key).1 = ((store.live now).get? key).isSome := by
  have found := Store.get_result store now key
  rw [Store.existsKey, found, Option.isSome_map]

/-- `SET` writes exactly when its arguments parse and no option holds it back. -/
theorem cmdSet_cases (clock : Clock) (store : Store) (args : List Arg) :
    (∃ raised, parseSet args = .error raised ∧
        cmdSet clock store args =
          (.error (if args.length < 2 then .wrongArity else raised), store)) ∨
      (∃ opts previous, parseSet args = .ok opts ∧
        opts.blocked ((store.live clock.monotonic).get? opts.key).isSome = true ∧
        cmdSet clock store args =
          (.ok (.ofOption previous), afterLookup clock store opts)) ∨
      (∃ opts reply, parseSet args = .ok opts ∧
        opts.blocked ((store.live clock.monotonic).get? opts.key).isSome = false ∧
        (reply = OK ∨ ∃ previous, reply = .ofOption previous) ∧
        cmdSet clock store args =
          (.ok reply, (afterLookup clock store opts).set clock.monotonic opts.key
            opts.value opts.ttl)) := by
  unfold cmdSet
  by_cases short : args.length < 2
  · left
    have failed : parseSet args = .error syntaxError := by
      match args, short with
      | [], _ => rfl
      | [_], _ => rfl
    exact ⟨_, failed, by rw [if_pos short, if_pos short]⟩
  · rw [if_neg short]
    cases parsed : parseSet args with
    | error raised => exact Or.inl ⟨raised, rfl, by rw [if_neg short]⟩
    | ok opts =>
        right
        dsimp only
        rw [existsKey_result]
        let previous := ((store.existsKey clock.monotonic opts.key).2.get
          clock.monotonic opts.key).1
        cases blocked : opts.blocked ((store.live clock.monotonic).get? opts.key).isSome with
        | true =>
            left
            refine ⟨opts, if opts.get then previous else none, rfl, blocked, ?_⟩
            cases looks : opts.get <;> simp [afterLookup, looks, previous]
        | false =>
            right
            refine ⟨opts, if opts.get then .ofOption previous else OK, rfl, blocked, ?_, ?_⟩
            · cases opts.get
              · exact Or.inl rfl
              · exact Or.inr ⟨previous, rfl⟩
            · cases looks : opts.get <;> simp [afterLookup, looks, previous]

theorem represents_cmdSet (represents : Represents clock store plain) (args : List Arg) :
    Represents clock (cmdSet clock store args).2
      (applyAll clock.time (setEffects clock.time plain args) plain) := by
  have present := fun key => (represents.isSome key).symm
  unfold setEffects
  rcases cmdSet_cases clock store args with
    ⟨raised, parsed, left⟩ | ⟨opts, previous, parsed, blocked, left⟩ |
      ⟨opts, reply, parsed, free, -, left⟩ <;>
    rw [left, parsed]
  · exact represents
  · simp only [present opts.key, blocked, if_true]
    exact (observes_afterLookup clock store opts).represents represents
  · simp only [present opts.key, free]
    exact ((observes_afterLookup clock store opts).represents represents).set
      opts.key opts.value opts.ttl

theorem represents_counter (represents : Represents clock store plain) (delta : Int)
    (args : List Arg) :
    Represents clock (counter delta clock store args).2
      (applyAll clock.time (counterEffects delta args) plain) := by
  match args with
  | [key] => exact represents_runIncr represents key delta
  | [] | _ :: _ :: _ => exact represents

theorem represents_counterBy (represents : Represents clock store plain) (sign : Int)
    (args : List Arg) :
    Represents clock (counterBy sign clock store args).2
      (applyAll clock.time (counterByEffects sign args) plain) := by
  match args with
  | [key, amount] =>
      simp only [counterBy, counterByEffects]
      cases parseInt amount with
      | error raised => exact represents
      | ok delta => exact represents_runIncr represents key (sign * delta)
  | [] | [_] | _ :: _ :: _ :: _ => exact represents

theorem represents_lifetime (represents : Represents clock store plain)
    (perSecond : Time) (args : List Arg) :
    Represents clock (lifetime perSecond clock store args).2
      (applyAll clock.time (lifetimeEffects perSecond clock.time args) plain) := by
  match args with
  | [key, amount] =>
      simp only [lifetime, lifetimeEffects]
      cases parseInt amount with
      | error raised => exact represents
      | ok number =>
          refine represents.expire key ?_
          unfold Clock.toMonotonic
          ring
  | [] | [_] | _ :: _ :: _ :: _ => exact represents

theorem represents_cmdPexpireat (represents : Represents clock store plain)
    (args : List Arg) :
    Represents clock (cmdPexpireat clock store args).2
      (applyAll clock.time (deadlineEffects args) plain) := by
  match args with
  | [key, moment] =>
      simp only [cmdPexpireat, deadlineEffects]
      cases intOfText (toText moment) with
      | none => exact represents
      | some unixMs =>
          dsimp only
          split_ifs
          · exact represents
          · refine represents.expire key ?_
            unfold Clock.toMonotonic
            ring
  | [] | [_] | _ :: _ :: _ :: _ => exact represents

theorem represents_cmdPersist (represents : Represents clock store plain)
    (args : List Arg) :
    Represents clock (cmdPersist clock store args).2
      (applyAll clock.time (persistEffects args) plain) := by
  match args with
  | [key] => exact represents.call (.persist key) rfl
  | [] | _ :: _ :: _ => exact represents

theorem represents_cmdFlushdb (represents : Represents clock store plain)
    (args : List Arg) :
    Represents clock (cmdFlushdb clock store args).2
      (applyAll clock.time (flushEffects args) plain) := by
  match args with
  | [] => exact @Represents.call clock store plain represents .flush .flush rfl
  | _ :: _ => exact represents

/-- Every command acts on a store without a memory limit as its effects act on
the plain map. -/
theorem represents_handler (represents : Represents clock store plain)
    (command : Command) (args : List Arg) :
    Represents clock (command.handler clock store args).2
      (applyAll clock.time (command.effects clock.time plain args) plain) := by
  by_cases reads : ¬ command.Writes
  · rw [effects_of_reads reads, ExpiringMap.applyAll_nil]
    exact (observes_handler reads clock store args).represents represents
  cases command with
  | set => exact represents_cmdSet represents args
  | mset =>
      simp only [Command.handler, cmdMset, Command.effects]
      split_ifs
      · exact represents
      · exact represents_msetLoop represents args
  | incr => exact represents_counter represents 1 args
  | decr => exact represents_counter represents (-1) args
  | incrby => exact represents_counterBy represents 1 args
  | decrby => exact represents_counterBy represents (-1) args
  | del =>
      simp only [Command.handler, cmdDel, Command.effects]
      split_ifs with short
      · rw [List.eq_nil_of_length_eq_zero (Nat.lt_one_iff.mp short)]
        exact represents
      · exact represents_delLoop represents args
  | expire => exact represents_lifetime represents 1 args
  | pexpire => exact represents_lifetime represents 1000 args
  | pexpireat => exact represents_cmdPexpireat represents args
  | persist => exact represents_cmdPersist represents args
  | flushdb => exact represents_cmdFlushdb represents args
  | ping | echo | get | mget | existsKey | ttl | keys | dbsize =>
      exact absurd not_false reads

theorem Command.ofName_eq_some_iff {text : Text} {command : Command} :
    ofName text = some command ↔ command.name = text := by
  constructor
  · intro found
    simpa using List.find?_some found
  · rintro rfl
    cases command <;> decide +kernel

/-- The command of the table that `dispatch` finds. -/
def Command.ofCommand : List Arg → Option Command
  | [] => none
  | head :: _ => ofName (upper (toText head))

/-- The effects of a whole command, name and arguments. -/
def commandEffects (time : Time) (plain : PlainMap) (command : List Arg) :
    List (Effect Arg Arg Time) :=
  match Command.ofCommand command with
  | none => []
  | some found => found.effects time plain command.tail

theorem replyTo_store (name : Text) (outcome : Except Raised Value × Store) :
    (replyTo name outcome).2 = outcome.2 := by
  unfold replyTo
  split <;> rfl

theorem dispatch_of_unknown {command : List Arg} (unknown : Command.ofCommand command = none)
    (clock : Clock) (store : Store) :
    ∃ message, dispatch clock store command = (.ok (.error message), store) := by
  cases command with
  | nil => exact ⟨_, rfl⟩
  | cons head args =>
      rw [Command.ofCommand] at unknown
      simp only [dispatch, unknown]
      exact ⟨_, rfl⟩

theorem dispatch_of_known {command : List Arg} {found : Command}
    (known : Command.ofCommand command = some found) (clock : Clock) (store : Store) :
    ∃ name, dispatch clock store command =
      replyTo name (found.handler clock store command.tail) := by
  cases command with
  | nil => cases known
  | cons head args =>
      rw [Command.ofCommand] at known
      simp only [dispatch, known]
      exact ⟨_, rfl⟩

/-- Dispatching a command acts on the plain map as its effects do. -/
theorem represents_dispatch (represents : Represents clock store plain)
    (command : List Arg) :
    Represents clock (dispatch clock store command).2
      (applyAll clock.time (commandEffects clock.time plain command) plain) := by
  unfold commandEffects
  cases known : Command.ofCommand command with
  | none =>
      obtain ⟨message, done⟩ := dispatch_of_unknown known clock store
      rw [done]
      exact represents
  | some found =>
      obtain ⟨name, done⟩ := dispatch_of_known known clock store
      rw [done, replyTo_store]
      exact represents_handler represents found command.tail

end Effects

end MiniCache
