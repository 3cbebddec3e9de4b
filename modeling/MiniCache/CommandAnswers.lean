import MiniCache.CommandCalls
import MiniCache.CommandForms
import Mathlib.Data.List.Dedup

/-!
# What the commands answer

The replies of the command table on a plain map.  A command reads the live contents of the
map; `KEYS` and `DBSIZE` also need its live keys in a list, in some order.  A store without a
memory limit gives these replies in every run, whatever the active expiry sweeps away in
between.
-/

namespace MiniCache

open ExpiringMap (Cell Effect Purged applyAll mapDeadline)

section Answers

variable (time : Time) (plain : PlainMap)

/-- The value of a key. -/
def valueOf (key : Arg) : Option Arg := (ExpiringMap.live time (plain key)).map Prod.fst

def presentAt (key : Arg) : Bool := (ExpiringMap.live time (plain key)).isSome

/-- The seconds that `TTL` reports, rounded up. -/
def secondsLeft (time : Time) : Cell Arg Time → Int
  | none => -2
  | some (_, none) => -1
  | some (_, some deadline) => ⌈deadline - time⌉

/-- The answer of a command with one argument. -/
def oneAnswer (reply : Arg → Value) : List Arg → Except Raised Value
  | [arg] => .ok (reply arg)
  | _ => .error .wrongArity

/-- The answer of a command with one argument or more. -/
def someAnswer (reply : List Arg → Value) (args : List Arg) : Except Raised Value :=
  if args.length < 1 then .error .wrongArity else .ok (reply args)

/-- The answer of a command without arguments. -/
def noneAnswer (reply : Value) : List Arg → Except Raised Value
  | [] => .ok reply
  | _ => .error .wrongArity

def pingAnswer : List Arg → Except Raised Value
  | [] => .ok (.simpleString "PONG".toList)
  | [message] => .ok (.arg message)
  | _ => .error .wrongArity

/-- `SET` answers with the earlier value when it has `GET`, and with nothing when it is held
back. -/
def setAnswer (args : List Arg) : Except Raised Value :=
  match parseSet args with
  | .error raised => .error (if args.length < 2 then .wrongArity else raised)
  | .ok opts =>
      if opts.get then .ok (.ofOption (valueOf time plain opts.key))
      else if opts.blocked (presentAt time plain opts.key) then .ok .null
      else .ok OK

def incrementAnswer (key : Arg) (delta : Int) : Except Raised Value :=
  match Store.incremented (valueOf time plain key) delta with
  | .error message => .error (.badArgument message)
  | .ok new => .ok (.int new)

def counterAnswer (delta : Int) : List Arg → Except Raised Value
  | [key] => incrementAnswer time plain key delta
  | _ => .error .wrongArity

def counterByAnswer (sign : Int) : List Arg → Except Raised Value
  | [key, amount] =>
      match parseInt amount with
      | .error raised => .error raised
      | .ok delta => incrementAnswer time plain key (sign * delta)
  | _ => .error .wrongArity

def lifetimeAnswer : List Arg → Except Raised Value
  | [key, amount] =>
      match parseInt amount with
      | .error raised => .error raised
      | .ok _ => .ok (.bool (presentAt time plain key))
  | _ => .error .wrongArity

def deadlineAnswer : List Arg → Except Raised Value
  | [key, moment] =>
      match intOfText (toText moment) with
      | none => .error (.badArgument notAnInteger)
      | some unixMs =>
          if QuotientOverflows unixMs then .error .overflowError
          else .ok (.bool (presentAt time plain key))
  | _ => .error .wrongArity

/-- `KEYS` on the live keys in some order. -/
def keysAnswer (listed : List Arg) : List Arg → Except Raised Value
  | [] => .ok (.list (listed.map .arg))
  | [pattern] =>
      .ok (.list ((listed.filter fun key => fnmatchcase key (key.like pattern)).map .arg))
  | _ => .error .wrongArity

/-- What a command of the table answers on a plain map whose live keys are listed. -/
def Command.answer (listed args : List Arg) : Command → Except Raised Value
  | .ping => pingAnswer args
  | .echo => oneAnswer .arg args
  | .set => setAnswer time plain args
  | .get => oneAnswer (fun key => .ofOption (valueOf time plain key)) args
  | .mset => if args.length < 2 ∨ args.length % 2 = 1 then .error .wrongArity else .ok OK
  | .mget => someAnswer (fun keys =>
      .list (keys.map fun key => .ofOption (valueOf time plain key))) args
  | .incr => counterAnswer time plain 1 args
  | .decr => counterAnswer time plain (-1) args
  | .incrby => counterByAnswer time plain 1 args
  | .decrby => counterByAnswer time plain (-1) args
  | .del => someAnswer (fun keys => .int (keys.dedup.countP (presentAt time plain))) args
  | .existsKey => someAnswer (fun keys => .int (keys.countP (presentAt time plain))) args
  | .expire | .pexpire => lifetimeAnswer time plain args
  | .pexpireat => deadlineAnswer time plain args
  | .ttl => oneAnswer (fun key =>
      .int (secondsLeft time (ExpiringMap.live time (plain key)))) args
  | .persist => oneAnswer (fun key =>
      .bool (Store.hasDeadline (ExpiringMap.live time (plain key)))) args
  | .keys => keysAnswer listed args
  | .flushdb => noneAnswer OK args
  | .dbsize => noneAnswer (.int listed.length) args

/-- The live keys of a plain map, each once. -/
structure Lists (listed : List Arg) : Prop where
  nodup : listed.Nodup
  mem_iff : ∀ key, key ∈ listed ↔ presentAt time plain key = true

/-- What `dispatch` makes of an outcome of a handler. -/
def caught (name : Text) : Except Raised Value → Except Raised Value
  | .error .wrongArity =>
      .ok (.error ("ERR wrong number of arguments for '".toList ++ name ++
        "' command".toList))
  | .error (.badArgument message) => .ok (.error ("ERR ".toList ++ message))
  | outcome => outcome

/-- What `dispatch` answers on a plain map. -/
def commandAnswer (listed : List Arg) : List Arg → Except Raised Value
  | [] => .ok (.error "ERR empty command".toList)
  | head :: args =>
      let name := upper (toText head)
      match Command.ofName name with
      | none => .ok (.error ("ERR unknown command '".toList ++ toText head ++ "'".toList))
      | some command => caught name (command.answer time plain listed args)

end Answers

section Handlers

variable {clock : Clock} {store : Store} {plain : PlainMap} {args : List Arg}

theorem Represents.value (represents : Represents clock store plain) (key : Arg) :
    (store.get clock.monotonic key).1 = valueOf clock.time plain key := by
  rw [Store.get_result, represents.get? key, mapDeadline, Option.map_map]
  rfl

theorem Represents.present (represents : Represents clock store plain) (key : Arg) :
    ((store.live clock.monotonic).get? key).isSome = presentAt clock.time plain key :=
  represents.isSome key

/-- The live keys of the store list those of the map. -/
theorem Represents.lists (represents : Represents clock store plain) :
    Lists clock.time plain (store.live clock.monotonic).keys := by
  refine ⟨OrderedDict.nodup_keys _, fun key => ?_⟩
  rw [← represents.present key, OrderedDict.get?_isSome_iff]

theorem lookup_answer (represents : Represents clock store plain) (key : Arg) :
    (lookup clock store key).1 = valueOf clock.time plain key := by
  rw [← represents.value key]
  unfold lookup
  dsimp only
  cases (store.get clock.monotonic key).1 <;> rfl

theorem mgetLoop_answer (represents : Represents clock store plain) (keys : List Arg) :
    (mgetLoop clock keys store).1 =
      keys.map fun key => .ofOption (valueOf clock.time plain key) := by
  induction keys generalizing store with
  | nil => rfl
  | cons key keys ih =>
      simp only [mgetLoop, List.map_cons, lookup_answer represents]
      rw [ih ((observes_lookup clock store key).represents represents)]

theorem existsLoop_answer (represents : Represents clock store plain) (keys : List Arg) :
    (existsLoop clock keys store).1 = keys.countP (presentAt clock.time plain) := by
  induction keys generalizing store with
  | nil => rfl
  | cons key keys ih =>
      have found : (valueOf clock.time plain key).isSome = presentAt clock.time plain key :=
        Option.isSome_map
      simp only [existsLoop, List.countP_cons, lookup_answer represents, found]
      rw [ih ((observes_lookup clock store key).represents represents), Nat.add_comm]

theorem countP_without {holds rest : Arg → Bool} {key : Arg} {keys : List Arg}
    (without : ∀ other, rest other = (holds other && decide (other ≠ key)))
    (absent : key ∉ keys) : keys.countP rest = keys.countP holds := by
  refine List.countP_congr fun other member => ?_
  have different : other ≠ key := fun same => absent (same ▸ member)
  rw [without other, decide_eq_true different, Bool.and_true]

/-- One key is counted apart from the others. -/
theorem countP_dedup_cons {holds rest : Arg → Bool} {key : Arg} {keys : List Arg}
    (without : ∀ other, rest other = (holds other && decide (other ≠ key))) :
    (if holds key then 1 else 0) + keys.dedup.countP rest = (key :: keys).dedup.countP holds := by
  have gone : rest key = false := by rw [without key]; simp
  by_cases member : key ∈ keys
  · have apart := List.perm_cons_erase (List.mem_dedup.mpr member)
    have absent : key ∉ keys.dedup.erase key := (List.nodup_dedup keys).not_mem_erase
    rw [List.dedup_cons_of_mem member, apart.countP_eq rest, apart.countP_eq holds,
      List.countP_cons, List.countP_cons, countP_without without absent, gone]
    simp only [Bool.false_eq_true, if_false, Nat.add_zero]
    exact Nat.add_comm _ _
  · have absent : key ∉ keys.dedup := mt List.mem_dedup.mp member
    rw [List.dedup_cons_of_notMem member, List.countP_cons, countP_without without absent]
    exact Nat.add_comm _ _

/-- A key that is named again is gone by then. -/
theorem delLoop_answer (represents : Represents clock store plain) (keys : List Arg) :
    (delLoop clock keys store).1 = keys.dedup.countP (presentAt clock.time plain) := by
  induction keys generalizing store plain with
  | nil => rfl
  | cons key keys ih =>
      let cleared := (Effect.act key .clear).apply clock.time plain
      have others (other : Arg) : presentAt clock.time cleared other =
          (presentAt clock.time plain other && decide (other ≠ key)) := by
        by_cases same : other = key
        · subst same
          simp [cleared, presentAt, ExpiringMap.Action.apply]
        · simp [cleared, presentAt, ExpiringMap.Effect.apply_act_of_ne _ _ _ (Ne.symm same), same]
      have here : (store.delete clock.monotonic key).1 = presentAt clock.time plain key := by
        rw [Store.delete_result, represents.present]
      have rest : (delLoop clock keys (store.delete clock.monotonic key).2).1 =
          keys.dedup.countP (presentAt clock.time cleared) :=
        ih (@Represents.call clock store plain represents (.delete key) (.act key .clear) rfl)
      simp only [delLoop, here, rest, countP_dedup_cons others]

theorem runIncr_answer (represents : Represents clock store plain) (key : Arg) (delta : Int) :
    (runIncr clock store key delta).1 = incrementAnswer clock.time plain key delta := by
  have result := Store.incr_result store clock.monotonic key delta
  rw [represents.get? key, mapDeadline, Option.map_map] at result
  have outcome : (store.incr clock.monotonic key delta).1 =
      Store.incremented (valueOf clock.time plain key) delta := result
  unfold runIncr incrementAnswer
  dsimp only
  rw [outcome]
  cases Store.incremented (valueOf clock.time plain key) delta <;> rfl

theorem cmdSet_answer (represents : Represents clock store plain) (args : List Arg) :
    (cmdSet clock store args).1 = setAnswer clock.time plain args := by
  unfold cmdSet setAnswer
  by_cases short : args.length < 2
  · rw [if_pos short]
    rcases args with _ | ⟨_, _ | ⟨_, _⟩⟩
    · rfl
    · rfl
    · simp only [List.length_cons] at short
      omega
  rw [if_neg short]
  cases parseSet args with
  | error raised =>
      dsimp only
      rw [if_neg short]
  | ok opts =>
      have present : (store.existsKey clock.monotonic opts.key).1 =
          presentAt clock.time plain opts.key := by
        rw [existsKey_result, represents.present]
      have looked := (observes_get clock.monotonic store opts.key).represents represents
      have previous : ((store.existsKey clock.monotonic opts.key).2.get clock.monotonic
          opts.key).1 = valueOf clock.time plain opts.key := looked.value opts.key
      dsimp only
      rw [present]
      cases opts.get with
      | true =>
          simp only [if_true, previous]
          split_ifs <;> rfl
      | false =>
          simp only [Bool.false_eq_true, if_false]
          split_ifs <;> rfl

/-- The seconds left are the same on both clocks, and a live key has some. -/
theorem cmdTtl_answer (represents : Represents clock store plain) (key : Arg) :
    (cmdTtl clock store [key]).1 =
      .ok (.int (secondsLeft clock.time (ExpiringMap.live clock.time (plain key)))) := by
  unfold cmdTtl
  dsimp only
  rw [Store.ttl_result, represents.get? key]
  rcases found : ExpiringMap.live clock.time (plain key) with _ | ⟨value, _ | deadline⟩
  · rfl
  · simp [mapDeadline, Store.remaining, secondsLeft]
  · have ahead : clock.time < deadline :=
      (ExpiringMap.alive_some _ _).mp (ExpiringMap.live_eq_some_iff.mp found).2
    have left : max 0 (clock.toMonotonic deadline - clock.monotonic) = deadline - clock.time := by
      rw [max_eq_right] <;> unfold Clock.toMonotonic <;> linarith
    have positive : deadline - clock.time ≠ -1 := by linarith
    simp only [mapDeadline, Option.map_some, Store.remaining, left, if_neg positive, secondsLeft]

/-- Every command answers on a store as on the plain map. -/
theorem answer_handler (represents : Represents clock store plain)
    (scheduled : store.Scheduled) (command : Command) (args : List Arg) :
    (command.handler clock store args).1 =
      command.answer clock.time plain (store.live clock.monotonic).keys args := by
  cases command with
  | set => exact cmdSet_answer represents args
  | get =>
      rcases args with _ | ⟨key, _ | ⟨_, _⟩⟩
      · rfl
      · exact congrArg (fun found => Except.ok (Value.ofOption found))
          (lookup_answer represents key)
      · rfl
  | mset =>
      simp only [Command.handler, cmdMset, Command.answer]
      split_ifs <;> rfl
  | mget =>
      simp only [Command.handler, cmdMget, Command.answer, someAnswer, mgetLoop_answer represents]
      split_ifs <;> rfl
  | del =>
      simp only [Command.handler, cmdDel, Command.answer, someAnswer, delLoop_answer represents]
      split_ifs <;> rfl
  | existsKey =>
      simp only [Command.handler, cmdExists, Command.answer, someAnswer,
        existsLoop_answer represents]
      split_ifs <;> rfl
  | incr | decr =>
      rcases args with _ | ⟨key, _ | ⟨_, _⟩⟩
      · rfl
      · exact runIncr_answer represents key _
      · rfl
  | incrby | decrby =>
      rcases args with _ | ⟨key, _ | ⟨amount, _ | ⟨_, _⟩⟩⟩
      case cons.cons.nil =>
        simp only [Command.handler, cmdIncrby, cmdDecrby, counterBy, Command.answer,
          counterByAnswer]
        cases parseInt amount with
        | error raised => rfl
        | ok delta => exact runIncr_answer represents key _
      all_goals rfl
  | expire | pexpire =>
      rcases args with _ | ⟨key, _ | ⟨amount, _ | ⟨_, _⟩⟩⟩
      case cons.cons.nil =>
        simp only [Command.handler, cmdExpire, cmdPexpire, lifetime, Command.answer,
          lifetimeAnswer]
        cases parseInt amount with
        | error raised => rfl
        | ok number => simp only [Store.expire_result, represents.present]
      all_goals rfl
  | pexpireat =>
      rcases args with _ | ⟨key, _ | ⟨moment, _ | ⟨_, _⟩⟩⟩
      case cons.cons.nil =>
        simp only [Command.handler, cmdPexpireat, Command.answer, deadlineAnswer]
        cases intOfText (toText moment) with
        | none => rfl
        | some unixMs =>
            dsimp only
            split_ifs
            · rfl
            · simp only [Store.expireAtUnix, Store.expire_result, represents.present]
      all_goals rfl
  | ttl =>
      rcases args with _ | ⟨key, _ | ⟨_, _⟩⟩
      · rfl
      · exact cmdTtl_answer represents key
      · rfl
  | persist =>
      rcases args with _ | ⟨key, _ | ⟨_, _⟩⟩
      · rfl
      · simp only [Command.handler, cmdPersist, Command.answer, oneAnswer, Store.persist_result,
          represents.get? key]
        rcases ExpiringMap.live clock.time (plain key) with _ | ⟨value, _ | deadline⟩ <;> rfl
      · rfl
  | keys =>
      rcases args with _ | ⟨pattern, _ | ⟨_, _⟩⟩
      · simp only [Command.handler, cmdKeys, Command.answer, keysAnswer,
          Store.keys_result store _ scheduled]
      · simp only [Command.handler, cmdKeys, Command.answer, keysAnswer,
          Store.keys_result store _ scheduled]
      · rfl
  | dbsize =>
      rcases args with _ | ⟨_, _⟩
      · simp only [Command.handler, cmdDbsize, Command.answer, noneAnswer,
          Store.len_result store _ scheduled, OrderedDict.size, OrderedDict.keys, List.length_map]
      · rfl
  | flushdb => rcases args with _ | ⟨_, _⟩ <;> rfl
  | ping => rcases args with _ | ⟨_, _ | ⟨_, _⟩⟩ <;> rfl
  | echo => rcases args with _ | ⟨_, _ | ⟨_, _⟩⟩ <;> rfl

theorem replyTo_outcome (name : Text) (outcome : Except Raised Value × Store) :
    (replyTo name outcome).1 = caught name outcome.1 := by
  rcases outcome with ⟨_ | _, store⟩
  · rename_i raised
    cases raised <;> rfl
  · rfl

/-- So does `dispatch`. -/
theorem answer_dispatch (represents : Represents clock store plain)
    (scheduled : store.Scheduled) (command : List Arg) :
    (dispatch clock store command).1 =
      commandAnswer clock.time plain (store.live clock.monotonic).keys command := by
  cases command with
  | nil => rfl
  | cons head args =>
      simp only [dispatch, commandAnswer]
      cases Command.ofName (upper (toText head)) with
      | none => rfl
      | some found =>
          dsimp only
          rw [replyTo_outcome, answer_handler represents scheduled]

end Handlers

section Runs

/-- What a store is asked to do: a command, or a sweep of the background task. -/
inductive StoreTurn
  | serve (command : List Arg)
  | sweep
deriving DecidableEq

/-- The replies of a store to the commands of a run. -/
def Store.replies (store : Store) : List (Clock × StoreTurn) → List (Except Raised Value)
  | [] => []
  | (clock, .serve command) :: rest =>
      let served := dispatch clock store command
      served.1 :: served.2.replies rest
  | (clock, .sweep) :: rest => (store.sweepExpired clock.monotonic).2.replies rest

/-- A plain map whose deadlines are on the monotonic clock, read on the wall clock. -/
def wallView (clock : Clock) (plain : PlainMap) : PlainMap :=
  fun key => mapDeadline clock.toWall (plain key)

/-- What a command leaves of a plain map with deadlines on the monotonic clock. -/
def afterCommand (clock : Clock) (command : List Arg) (plain : PlainMap) : PlainMap :=
  let viewed := wallView clock plain
  fun key => mapDeadline clock.toMonotonic
    (applyAll clock.time (commandEffects clock.time viewed command) viewed key)

/-- The monotonic clock never goes back; the wall clock may be set. -/
def Forward {α : Type*} (run : List (Clock × α)) : Prop :=
  (run.map fun step => step.1.monotonic).Pairwise (· ≤ ·)

instance {α : Type*} (run : List (Clock × α)) : Decidable (Forward run) :=
  inferInstanceAs (Decidable ((run.map fun step => step.1.monotonic).Pairwise (· ≤ ·)))

theorem Forward.tail {α : Type*} {step : Clock × α} {run : List (Clock × α)}
    (forward : Forward (step :: run)) : Forward run :=
  (List.pairwise_cons.mp forward).2

theorem Forward.head_le {α : Type*} {step : Clock × α} {run : List (Clock × α)}
    (forward : Forward (step :: run)) : ∀ later ∈ run, step.1.monotonic ≤ later.1.monotonic :=
  fun _ member => (List.pairwise_cons.mp forward).1 _ (List.mem_map_of_mem member)

variable {clock : Clock} {store : Store} {plain : PlainMap}

/-- The store holds the cells of the plain map, less some expired ones. -/
structure Store.Carries (store : Store) (now : Time) (plain : PlainMap) : Prop
    extends Uncapped store where
  scheduled : store.Scheduled
  holds : ∀ key, Purged now (plain key) (store.plain key)

theorem Store.Carries.represents (carries : store.Carries clock.monotonic plain) :
    Represents clock store (wallView clock plain) := by
  refine ⟨carries.unlimited, carries.drained, fun key => ?_⟩
  rw [wallView, mapDeadline_toWall]
  exact carries.holds key

theorem Store.Carries.later {now later : Time} (carries : store.Carries now plain)
    (inOrder : now ≤ later) : store.Carries later plain :=
  ⟨carries.toUncapped, carries.scheduled, fun key => (carries.holds key).mono inOrder⟩

theorem Store.Carries.dispatch (carries : store.Carries clock.monotonic plain)
    (command : List Arg) :
    (dispatch clock store command).2.Carries clock.monotonic
      (afterCommand clock command plain) := by
  have after := represents_dispatch carries.represents command
  have reached := @reaches_dispatch clock (fun _ => True) store command fun _ _ => trivial
  exact ⟨⟨after.unlimited, after.drained⟩, reached.keeps.scheduled carries.scheduled, after.holds⟩

theorem Store.Carries.sweep (carries : store.Carries clock.monotonic plain) :
    (store.sweepExpired clock.monotonic).2.Carries clock.monotonic plain := by
  have observes := observes_sweep clock.monotonic store
  exact ⟨carries.toUncapped.observes observes, observes.scheduled carries.scheduled,
    fun key => (carries.holds key).trans (observes.cells key)⟩

end Runs

end MiniCache
