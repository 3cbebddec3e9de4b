import MiniCache.Commands
import MiniCache.StoreCache

/-!
# Commands and the readings of the clock

The commands on one key, with every reading of `time.monotonic` that they take on the way.
An operation is given the readings of the clock in order and the number of those that are
taken, and it returns the number taken after it.  With a clock that stands still they are
the commands at one instant.
-/

namespace MiniCache

namespace Store

/-- The deadline stored for a key, in the past or not. -/
def deadline (store : Store) (key : Arg) : Option Time :=
  (store.data.get? key).bind Entry.expireAt

/-- The readings it takes to test a key for expiry. -/
def tests (store : Store) (key : Arg) : Nat := if (store.deadline key).isSome then 1 else 0

/-- An eviction of this store begins with a sweep. -/
def Sweeps (store : Store) : Prop := store.policy = .allkeysLru ∧ store.overLimit = true

instance (store : Store) : Decidable store.Sweeps := inferInstanceAs (Decidable (_ ∧ _))

end Store

namespace Readings

variable (readings : Nat → Time)

section Operations

variable (store : Store) (key : Arg) (taken : Nat)

/-- `Store._is_expired`: there is nothing to read without a deadline. -/
def isExpired (entry : Entry) (taken : Nat) : Bool × Nat :=
  match entry.expireAt with
  | none => (false, taken)
  | some expireAt => (expireAt ≤ readings taken, taken + 1)

/-- How `get`, `ttl`, `incr`, `expire` and `persist` begin. -/
def fetch : (Option Entry × Store) × Nat :=
  match store.data.get? key with
  | none => ((none, store), taken)
  | some entry =>
      let expired := isExpired readings entry taken
      (if expired.1 then (none, store.remove key true) else (some entry, store), expired.2)

/-- `Store.get`. -/
def get : (Option Arg × Store) × Nat :=
  let fetched := fetch readings store key taken
  match fetched.1 with
  | (none, store) => ((none, store), fetched.2)
  | (some entry, store) =>
      ((some entry.value, { store with data := store.data.moveToEnd key }), fetched.2)

/-- `Store.exists`. -/
def existsKey : (Bool × Store) × Nat :=
  let found := get readings store key taken
  ((found.1.1.isSome, found.1.2), found.2)

/-- `Store.ttl`, which reads the clock again for a key with a deadline. -/
def ttl : (Option Time × Store) × Nat :=
  let fetched := fetch readings store key taken
  match fetched.1 with
  | (none, store) => ((none, store), fetched.2)
  | (some entry, store) =>
      match entry.expireAt with
      | none => ((some (-1), store), fetched.2)
      | some expireAt =>
          ((some (max 0 (expireAt - readings fetched.2)), store), fetched.2 + 1)

/-- `Store._evict`; the one reading is that of `sweep_expired`. -/
def evict : Store × Nat :=
  if store.policy ≠ .allkeysLru || !store.overLimit then
    (store, taken)
  else
    let swept := (store.sweepExpired (readings taken)).2
    (Store.evictLoop swept.data.size swept, taken + 1)

/-- `Store.set`. -/
def set (value : Arg) (ttl : Option Time) : Store × Nat :=
  let counted := { store with writes := store.writes + 1 }
  match ttl with
  | none => evict readings (counted.put key value none) taken
  | some ttl =>
      let expireAt := readings taken + ttl
      evict readings ((counted.put key value (some expireAt)).schedule key expireAt) (taken + 1)

/-- `Store.incr`, with the text of the `ValueError` it raises. -/
def incr (delta : Int) : (Except Text Int × Store) × Nat :=
  let fetched := fetch readings store key taken
  let entry := fetched.1.1
  let store := fetched.1.2
  let sample := match entry with
    | none => key
    | some entry => entry.value
  let current : Except Text Int := match entry with
    | none => .ok 0
    | some entry => storedInt entry.value
  match current with
  | .error message => ((.error message, store), fetched.2)
  | .ok current =>
      let new := current + delta
      if InInt64 new then
        let value := sample.ofText (intText new)
        let counted := { store with writes := store.writes + 1 }
        let stored := match entry with
          | none => counted.put key value none
          | some entry => counted.overwrite key value entry
        let evicted := evict readings stored fetched.2
        ((.ok new, evicted.1), evicted.2)
      else
        ((.error "increment or decrement would overflow".toList, store), fetched.2)

/-- `Store.delete`. -/
def delete : (Bool × Store) × Nat :=
  match store.data.get? key with
  | none => ((false, store), taken)
  | some entry =>
      let expired := isExpired readings entry taken
      ((!expired.1, store.remove key expired.1), expired.2)

/-- `Store.expire`, which reads the clock again for the new deadline. -/
def expire (ttl : Time) : (Bool × Store) × Nat :=
  let fetched := fetch readings store key taken
  match fetched.1 with
  | (none, store) => ((false, store), fetched.2)
  | (some entry, store) =>
      let expireAt := readings fetched.2 + ttl
      let changed :=
        { store with
          data := store.data.setItem key { entry with expireAt := some expireAt } }
      ((true, changed.schedule key expireAt), fetched.2 + 1)

/-- `Store.persist`. -/
def persist : (Bool × Store) × Nat :=
  let fetched := fetch readings store key taken
  match fetched.1 with
  | (none, store) => ((false, store), fetched.2)
  | (some entry, store) =>
      match entry.expireAt with
      | none => ((false, store), fetched.2)
      | some _ =>
          ((true, { store with
            data := store.data.setItem key { entry with expireAt := none } }), fetched.2)

end Operations

section Handlers

variable (store : Store) (args : List Arg)

/-- `_lookup`. -/
def lookup (store : Store) (key : Arg) (taken : Nat) : (Option Arg × Store) × Nat :=
  let found := get readings store key taken
  match found.1 with
  | (none, store) => ((none, { store with misses := store.misses + 1 }), found.2)
  | (some value, store) => ((some value, { store with hits := store.hits + 1 }), found.2)

/-- `_cmd_set`. -/
def cmdSet : (Except Raised Value × Store) × Nat :=
  if args.length < 2 then ((.error .wrongArity, store), 0)
  else match parseSet args with
    | .error raised => ((.error raised, store), 0)
    | .ok opts =>
        let found := existsKey readings store opts.key 0
        let previous : (Option Arg × Store) × Nat :=
          if opts.get then get readings found.1.2 opts.key found.2
          else ((none, found.1.2), found.2)
        if opts.blocked found.1.1 then ((.ok (.ofOption previous.1.1), previous.1.2), previous.2)
        else
          let stored := set readings previous.1.2 opts.key previous.2 opts.value opts.ttl
          ((.ok (if opts.get then .ofOption previous.1.1 else OK), stored.1), stored.2)

/-- `_cmd_get`. -/
def cmdGet : (Except Raised Value × Store) × Nat :=
  match args with
  | [key] =>
      let found := lookup readings store key 0
      ((.ok (.ofOption found.1.1), found.1.2), found.2)
  | _ => ((.error .wrongArity, store), 0)

/-- `_incr`. -/
def runIncr (key : Arg) (delta : Int) : (Except Raised Value × Store) × Nat :=
  let outcome := incr readings store key 0 delta
  match outcome.1 with
  | (.error message, store) => ((.error (.badArgument message), store), outcome.2)
  | (.ok new, store) => ((.ok (.int new), store), outcome.2)

/-- A counter command with a fixed step. -/
def counter (delta : Int) : (Except Raised Value × Store) × Nat :=
  match args with
  | [key] => runIncr readings store key delta
  | _ => ((.error .wrongArity, store), 0)

/-- A counter command whose step is an argument, times a sign. -/
def counterBy (sign : Int) : (Except Raised Value × Store) × Nat :=
  match args with
  | [key, amount] =>
      match parseInt amount with
      | .error raised => ((.error raised, store), 0)
      | .ok delta => runIncr readings store key (sign * delta)
  | _ => ((.error .wrongArity, store), 0)

/-- The loop of `_cmd_del`. -/
def delLoop : List Arg → Store → Nat → (Nat × Store) × Nat
  | [], store, taken => ((0, store), taken)
  | key :: rest, store, taken =>
      let deleted := delete readings store key taken
      let others := delLoop rest deleted.1.2 deleted.2
      (((if deleted.1.1 then 1 else 0) + others.1.1, others.1.2), others.2)

/-- `_cmd_del`. -/
def cmdDel : (Except Raised Value × Store) × Nat :=
  if args.length < 1 then ((.error .wrongArity, store), 0)
  else
    let deleted := delLoop readings args store 0
    ((.ok (.int deleted.1.1), deleted.1.2), deleted.2)

/-- The loop of `_cmd_exists`. -/
def existsLoop : List Arg → Store → Nat → (Nat × Store) × Nat
  | [], store, taken => ((0, store), taken)
  | key :: rest, store, taken =>
      let found := lookup readings store key taken
      let others := existsLoop rest found.1.2 found.2
      (((if found.1.1.isSome then 1 else 0) + others.1.1, others.1.2), others.2)

/-- `_cmd_exists`. -/
def cmdExists : (Except Raised Value × Store) × Nat :=
  if args.length < 1 then ((.error .wrongArity, store), 0)
  else
    let found := existsLoop readings args store 0
    ((.ok (.int found.1.1), found.1.2), found.2)

/-- A command that gives a key a lifetime of an integral number of units. -/
def lifetime (perSecond : Time) : (Except Raised Value × Store) × Nat :=
  match args with
  | [key, amount] =>
      match parseInt amount with
      | .error raised => ((.error raised, store), 0)
      | .ok number =>
          let outcome := expire readings store key 0 (number / perSecond)
          ((.ok (.bool outcome.1.1), outcome.1.2), outcome.2)
  | _ => ((.error .wrongArity, store), 0)

/-- `_cmd_ttl`. -/
def cmdTtl : (Except Raised Value × Store) × Nat :=
  match args with
  | [key] =>
      let outcome := ttl readings store key 0
      let reply : Int := match outcome.1.1 with
        | none => -2
        | some left => if left = -1 then -1 else ⌈left⌉
      ((.ok (.int reply), outcome.1.2), outcome.2)
  | _ => ((.error .wrongArity, store), 0)

/-- `_cmd_persist`. -/
def cmdPersist : (Except Raised Value × Store) × Nat :=
  match args with
  | [key] =>
      let outcome := persist readings store key 0
      ((.ok (.bool outcome.1.1), outcome.1.2), outcome.2)
  | _ => ((.error .wrongArity, store), 0)

/-- The commands on one key, as they read the clock. -/
def handler? : Command → Option (Store → List Arg → (Except Raised Value × Store) × Nat)
  | .set => some (cmdSet readings)
  | .get => some (cmdGet readings)
  | .incr => some fun store args => counter readings store args 1
  | .decr => some fun store args => counter readings store args (-1)
  | .incrby => some fun store args => counterBy readings store args 1
  | .decrby => some fun store args => counterBy readings store args (-1)
  | .del => some (cmdDel readings)
  | .existsKey => some (cmdExists readings)
  | .expire => some fun store args => lifetime readings store args 1
  | .pexpire => some fun store args => lifetime readings store args 1000
  | .ttl => some (cmdTtl readings)
  | .persist => some (cmdPersist readings)
  | .ping | .echo | .mset | .mget | .pexpireat | .keys | .flushdb | .dbsize => none

end Handlers

section Equations

variable {readings} {store : Store} {key : Arg} {taken : Nat}

theorem isExpired_eq (entry : Entry) (taken : Nat) : isExpired readings entry taken =
    (entry.isExpired (readings taken), taken + if entry.expireAt.isSome then 1 else 0) := by
  unfold isExpired Entry.isExpired
  cases entry.expireAt <;> rfl

/-- A key is tested at the reading that is next. -/
theorem fetch_eq : fetch readings store key taken =
    (store.fetch (readings taken) key, taken + store.tests key) := by
  unfold fetch Store.fetch Store.tests Store.deadline
  cases store.data.get? key with
  | none => rfl
  | some entry =>
      simp only [isExpired_eq, Option.bind_some]

theorem get_eq : get readings store key taken =
    (store.get (readings taken) key, taken + store.tests key) := by
  unfold get Store.get
  rw [fetch_eq]
  rcases store.fetch (readings taken) key with ⟨_ | entry, left⟩ <;> rfl

theorem existsKey_eq : existsKey readings store key taken =
    (store.existsKey (readings taken) key, taken + store.tests key) := by
  rw [existsKey, get_eq]
  rfl

/-- A lookup is the one at the reading that is next. -/
theorem lookup_eq {clock : Clock} (reading : clock.monotonic = readings taken) :
    lookup readings store key taken =
      (MiniCache.lookup clock store key, taken + store.tests key) := by
  unfold lookup MiniCache.lookup
  rw [get_eq, reading]
  rcases store.get (readings taken) key with ⟨_ | value, found⟩ <;> rfl

theorem evict_eq : evict readings store taken =
    (store.evict (readings taken), taken + if store.Sweeps then 1 else 0) := by
  unfold evict Store.evict
  by_cases sweeps : store.Sweeps
  · have goes : (store.policy ≠ .allkeysLru || !store.overLimit) = false := by
      simp [sweeps.1, sweeps.2]
    simp only [goes, Bool.false_eq_true, if_false, if_pos sweeps]
  · have stays : (store.policy ≠ .allkeysLru || !store.overLimit) = true := by
      rw [Store.Sweeps, Classical.not_and_iff_not_or_not, Bool.not_eq_true] at sweeps
      simpa using sweeps
    simp only [stays, if_true, if_neg sweeps, Nat.add_zero]

/-- The readings it takes to give a lifetime. -/
def given (ttl : Option Time) : Nat := if ttl.isSome then 1 else 0

theorem set_eq (value : Arg) (ttl : Option Time) : set readings store key taken value ttl =
    ((store.setCore (readings taken) key value ttl).evict (readings (taken + given ttl)),
      taken + given ttl +
        if (store.setCore (readings taken) key value ttl).Sweeps then 1 else 0) := by
  cases ttl <;> simp only [set, evict_eq] <;> rfl

theorem incr_eq (delta : Int) :
    (∃ message,
        Store.incremented (((store.live (readings taken)).get? key).map Prod.fst) delta =
          .error message ∧
        incr readings store key taken delta =
          ((.error message, (store.fetch (readings taken) key).2), taken + store.tests key)) ∨
      (∃ new,
        Store.incremented (((store.live (readings taken)).get? key).map Prod.fst) delta = .ok new ∧
        incr readings store key taken delta =
          ((.ok new, (store.incrCore (readings taken) key new).evict
              (readings (taken + store.tests key))),
            taken + store.tests key +
              if (store.incrCore (readings taken) key new).Sweeps then 1 else 0)) := by
  unfold incr Store.incrCore
  simp only [fetch_eq, evict_eq]
  rcases Store.fetch_cases store (readings taken) key with
    ⟨dead, fetched⟩ | ⟨entry, present, live, fetched⟩
  · simp only [fetched, dead, Option.map_none, Store.incremented, Int.zero_add]
    by_cases inRange : InInt64 delta
    · simp only [if_pos inRange]
      exact Or.inr ⟨delta, rfl, by rw [Store.remove_writes]; rfl⟩
    · simp only [if_neg inRange]
      exact Or.inl ⟨_, rfl, rfl⟩
  · simp only [fetched, live, Option.map_some, Store.incremented, Entry.content]
    cases stored : storedInt entry.value with
    | error message => exact Or.inl ⟨message, rfl, rfl⟩
    | ok number =>
        dsimp only
        by_cases inRange : InInt64 (number + delta)
        · have counted : { store with writes := store.writes + 1 }.data.get? key = some entry :=
            present
          simp only [if_pos inRange, Store.overwrite_eq_put _ _ counted]
          exact Or.inr ⟨_, rfl, rfl⟩
        · simp only [if_neg inRange]
          exact Or.inl ⟨_, rfl, rfl⟩

theorem delete_eq : delete readings store key taken =
    (store.delete (readings taken) key, taken + store.tests key) := by
  unfold delete Store.delete Store.tests Store.deadline
  cases store.data.get? key with
  | none => rfl
  | some entry =>
      simp only [isExpired_eq, Option.bind_some]

theorem persist_eq : persist readings store key taken =
    (store.persist (readings taken) key, taken + store.tests key) := by
  unfold persist Store.persist
  rw [fetch_eq]
  rcases store.fetch (readings taken) key with ⟨_ | entry, left⟩
  · rfl
  · dsimp only
    cases entry.expireAt <;> rfl

/-- An expiry that reads the clock twice is one with another lifetime. -/
theorem expire_eq (ttl : Time) :
    (expire readings store key taken ttl).1 =
      store.expire (readings taken) key
        (readings (taken + store.tests key) + ttl - readings taken) := by
  unfold expire Store.expire
  rw [fetch_eq]
  rcases store.fetch (readings taken) key with ⟨_ | entry, left⟩
  · rfl
  · dsimp only
    rw [add_sub_cancel]

end Equations

end Readings

end MiniCache
