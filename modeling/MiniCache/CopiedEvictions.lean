import MiniCache.CommandCache
import MiniCache.CommandForms

/-!
# The copy of a store that evicts

A copy without a limit takes the form of a write and the deletions of the evictions.  It
then holds what the store holds and every key that was evicted, less the keys that were
deleted.
-/

namespace MiniCache

open ExpiringMap (Action Effect applyAll)
open LruCache (Lagging run)
open Store (weigh)

section Dispatching

variable {clock : Clock} {now : Time} {store copy other : Store} {calls : List Call}
  {command : List Arg}

/-- The cache after the calls of a command, with the keys that these evict. -/
def Store.cacheAfter (store : Store) (clock : Clock) (command : List Arg) :
    LruCache Arg Content :=
  run (capOf store.maxmemory store.policy) weigh ⟨store.live clock.monotonic, []⟩
    ((commandCalls clock (store.live clock.monotonic) command).map
      (Call.update clock.monotonic))

/-- A command leaves the contents of that cache and appends what it evicts. -/
theorem dispatch_cache (sound : store.Sound store.maxmemory store.policy) (clock : Clock)
    (command : List Arg) :
    (dispatch clock store command).2.live clock.monotonic =
        (store.cacheAfter clock command).dict ∧
      (dispatch clock store command).2.evicted =
        store.evicted ++ (store.cacheAfter clock command).lost := by
  have cache := ((performs_dispatch clock store command).cache sound).2
  rw [Store.cache, LruCache.run_lost] at cache
  exact ⟨congrArg LruCache.dict cache, congrArg LruCache.lost cache⟩

theorem Performs.uncapped (performs : Performs now store calls other)
    (unlimited : store.maxmemory = 0) :
    other.live now = uncapped now (store.live now) calls ∧ other.maxmemory = 0 := by
  induction performs with
  | refl => exact ⟨rfl, unlimited⟩
  | @call calls middle call _ ih =>
      refine ⟨?_, (Store.keeps_call middle now call).maxmemory.trans ih.2⟩
      rw [Store.live_call ih.2, ih.1, MiniCache.uncapped, MiniCache.uncapped,
        List.map_append, LruCache.run_append]
      rfl
  | count hits misses _ ih => exact ih

theorem commandCalls_congr {dict other : OrderedDict Arg Content}
    (same : ∀ key, dict.get? key = other.get? key) (clock : Clock) (command : List Arg) :
    commandCalls clock dict command = commandCalls clock other command := by
  unfold commandCalls
  cases Command.ofCommand command with
  | none => rfl
  | some found =>
      cases found with
      | set =>
          simp only [Command.calls]
          cases parseSet command.tail with
          | error raised => rfl
          | ok opts => simp only [same]
      | mset | incr | decr | incrby | decrby | del | expire | pexpire | pexpireat | persist
      | flushdb | get | mget | existsKey | ttl | keys | dbsize | ping | echo => rfl

/-- The copy that executes the same command is ahead of the store by what the command
evicts. -/
theorem lags_dispatch (sound : store.Sound store.maxmemory store.policy)
    (unlimited : copy.maxmemory = 0)
    (same : ∀ key, (copy.live clock.monotonic).get? key = (store.live clock.monotonic).get? key)
    {found : Command} (known : Command.ofCommand command = some found) (writes : found.Writes) :
    Lagging (store.cacheAfter clock command)
      ((dispatch clock copy command).2.live clock.monotonic).get? := by
  obtain ⟨live, -⟩ := (performs_dispatch clock copy command).uncapped unlimited
  have uniform : Uniform (commandCalls clock (store.live clock.monotonic) command) := by
    rw [commandCalls, known]
    exact uniform_calls writes clock _ _
  rw [live, commandCalls_congr same]
  exact uniform.lags (sound.settled clock.monotonic) (Store.lives store _) (Store.lives copy _)
    fun key => (same key).symm

end Dispatching

section Streaming

variable {clock : Clock} {copy : Store} {plain : PlainMap}

/-- The deletions of evicted keys arrive. -/
theorem streams_evictions {keys : List Arg} (storable : ∀ key ∈ keys, Storable key) :
    Streams clock (keys.map Server.evictionCommand) (keys.map fun key => .act key .clear) := by
  induction keys with
  | nil => exact streams_nil
  | cons key rest ih =>
      obtain ⟨⟨data, rfl, small⟩, later⟩ := List.forall_mem_cons.mp storable
      have first : Streams clock [Server.evictionCommand (.bytes data)]
          [.act (.bytes data) .clear] := by
        refine @streams_spelled clock _ .del trivial [data] _ rfl ?_ ?_ rfl fun plain => rfl
        · rw [List.length_singleton]
          decide
        · simpa using small
      exact first.append (ih later)

/-- After the deletions, the copy holds the other keys. -/
theorem get?_told (represents : Represents clock copy plain) {told : List Arg}
    (storable : ∀ key ∈ told, Storable key) :
    ∃ after, deliverAll clock (told.map Server.evictionCommand) copy = (true, after) ∧
      ∀ key, (after.live clock.monotonic).get? key =
        if key ∈ told then none else (copy.live clock.monotonic).get? key := by
  obtain ⟨after, done, represented⟩ := (streams_evictions storable).acts represents
  refine ⟨after, done, fun key => ?_⟩
  rw [represented.get?, applyAll_clear, represents.get?]
  split_ifs <;> rfl

end Streaming

end MiniCache
