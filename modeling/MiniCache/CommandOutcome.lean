import MiniCache.CommandEffects

/-!
# When commands succeed

A command can end in a reply, in an error reply, or in an exception that the
dispatcher lets pass.  The last depends on the command alone: it happens when an
integer argument has more digits than `int` converts, or names an instant that
no float holds.  A command that does not succeed acts on nothing.
-/

namespace MiniCache

open ExpiringMap (Effect Action applyAll)

section Parsing

theorem parseInt_ok {arg : Arg} {number : Int} (parsed : parseInt arg = .ok number) :
    intOfText (toText arg) = some number ∧ InInt64 number := by
  unfold parseInt at parsed
  dsimp only at parsed
  split at parsed
  · split at parsed
    · cases parsed
    · rename_i found
      split_ifs at parsed with inRange
      cases parsed
      exact ⟨found, inRange⟩
  · cases parsed

/-- A lifetime that `SET` accepts is positive, no more than a 64-bit number of
seconds, and a whole number of milliseconds. -/
structure Lifetime (ttl : Time) : Prop where
  positive : 0 < ttl
  bounded : ttl < 2 ^ 63
  whole : ∃ milliseconds : Int, ttl * 1000 = milliseconds

theorem parseTtl_ok {unit : Text} {arg : Arg} {ttl : Time}
    (parsed : parseTtl unit arg = .ok ttl) : Lifetime ttl := by
  unfold parseTtl at parsed
  cases read : parseInt arg with
  | error raised =>
      rw [read] at parsed
      cases parsed
  | ok number =>
      simp only [read] at parsed
      split_ifs at parsed with nonpositive seconds
      all_goals
        cases parsed
        have positive : (0 : Time) < number := by exact_mod_cast not_le.mp nonpositive
        have bounded : (number : Time) ≤ 2 ^ 63 - 1 := by
          exact_mod_cast (parseInt_ok read).2.2
      · exact ⟨positive, by linarith, number * 1000, by push_cast; rfl⟩
      · exact ⟨by positivity, by linarith, number, by ring⟩

theorem parseSetOptions_ok {options : List Arg} {start opts : SetOptions}
    (lifetime : ∀ ttl ∈ start.ttl, Lifetime ttl)
    (parsed : parseSetOptions options start = .ok opts) :
    opts.key = start.key ∧ opts.value = start.value ∧ ∀ ttl ∈ opts.ttl, Lifetime ttl := by
  revert lifetime parsed
  fun_induction parseSetOptions options start with
  | case1 start => rintro lifetime ⟨⟩; exact ⟨rfl, rfl, lifetime⟩
  | case2 | case3 | case4 => assumption
  | case5 => rintro - ⟨⟩
  | case6 arg start option notNx notXx notGet timed number rest unset ttl read ih =>
      intro _ parsed
      refine ih ?_ parsed
      intro other same
      obtain rfl := Option.some.inj same
      exact parseTtl_ok read
  | case7 | case8 => rintro - ⟨⟩

theorem parseSet_ok {args : List Arg} {opts : SetOptions} (parsed : parseSet args = .ok opts) :
    (opts.nx && opts.xx) = false ∧ ∀ ttl ∈ opts.ttl, Lifetime ttl := by
  unfold parseSet at parsed
  split at parsed
  · split at parsed
    · cases parsed
    · rename_i options
      split_ifs at parsed with both
      cases parsed
      exact ⟨Bool.not_eq_true _ ▸ both, (parseSetOptions_ok (by simp) options).2.2⟩
  · cases parsed

/-- The key and the value of a `SET` are its first two arguments. -/
theorem parseSet_args {args : List Arg} {opts : SetOptions} (parsed : parseSet args = .ok opts) :
    ∃ options, args = opts.key :: opts.value :: options := by
  unfold parseSet at parsed
  split at parsed
  · split at parsed
    · cases parsed
    · rename_i options
      split_ifs at parsed
      cases parsed
      obtain ⟨key, value, -⟩ := parseSetOptions_ok (by simp) options
      exact ⟨_, by rw [key, value]⟩
  · cases parsed

end Parsing

section Raising

/-- An exception that `dispatch` does not catch. -/
def Raised.escapes : Raised → Bool
  | .wrongArity | .badArgument _ => false
  | .valueError _ | .overflowError => true

def escaping {α : Type*} : Except Raised α → Bool
  | .error raised => raised.escapes
  | .ok _ => false

/-- Whether the second of two arguments makes `_parse_int` raise past
`dispatch`. -/
def amountEscapes : List Arg → Bool
  | [_, amount] => escaping (parseInt amount)
  | _ => false

/-- Whether the second of two arguments is an instant that no float holds. -/
def momentEscapes : List Arg → Bool
  | [_, moment] =>
      match intOfText (toText moment) with
      | none => false
      | some unixMs => decide (QuotientOverflows unixMs)
  | _ => false

/-- Whether a command raises past `dispatch` on these arguments. -/
def Command.raises (args : List Arg) : Command → Bool
  | .set => escaping (parseSet args)
  | .incrby | .decrby | .expire | .pexpire => amountEscapes args
  | .pexpireat => momentEscapes args
  | .ping | .echo | .get | .mset | .mget | .incr | .decr | .del | .existsKey | .ttl
  | .persist | .keys | .flushdb | .dbsize => false

def raises : List Arg → Bool
  | [] => false
  | head :: args =>
      match Command.ofName (upper (toText head)) with
      | none => false
      | some command => command.raises args

theorem raises_of_unknown {command : List Arg}
    (unknown : Command.ofCommand command = none) : raises command = false := by
  cases command with
  | nil => rfl
  | cons head args =>
      rw [Command.ofCommand] at unknown
      simp only [raises, unknown]

theorem raises_of_known {command : List Arg} {found : Command}
    (known : Command.ofCommand command = some found) :
    raises command = found.raises command.tail := by
  cases command with
  | nil => cases known
  | cons head args =>
      rw [Command.ofCommand] at known
      simp only [raises, known, List.tail_cons]

variable (clock : Clock) (store : Store) (args : List Arg)

theorem escaping_runIncr (key : Arg) (delta : Int) :
    escaping (runIncr clock store key delta).1 = false := by
  unfold runIncr
  dsimp only
  split <;> rfl

theorem escaping_counter (delta : Int) :
    escaping (counter delta clock store args).1 = false := by
  match args with
  | [key] => exact escaping_runIncr clock store key delta
  | [] | _ :: _ :: _ => rfl

theorem escaping_counterBy (sign : Int) :
    escaping (counterBy sign clock store args).1 = amountEscapes args := by
  match args with
  | [key, amount] =>
      simp only [counterBy, amountEscapes]
      cases parseInt amount with
      | error raised => rfl
      | ok delta => exact escaping_runIncr clock store key _
  | [] | [_] | _ :: _ :: _ :: _ => rfl

theorem escaping_lifetime (perSecond : Time) :
    escaping (lifetime perSecond clock store args).1 = amountEscapes args := by
  match args with
  | [key, amount] =>
      simp only [lifetime, amountEscapes]
      cases parseInt amount <;> rfl
  | [] | [_] | _ :: _ :: _ :: _ => rfl

theorem escaping_cmdPexpireat :
    escaping (cmdPexpireat clock store args).1 = momentEscapes args := by
  match args with
  | [key, moment] =>
      simp only [cmdPexpireat, momentEscapes]
      cases intOfText (toText moment) with
      | none => rfl
      | some unixMs =>
          dsimp only
          split_ifs with overflows
          · simp [escaping, Raised.escapes, overflows]
          · simp [escaping, overflows]
  | [] | [_] | _ :: _ :: _ :: _ => rfl

theorem escaping_cmdSet : escaping (cmdSet clock store args).1 = escaping (parseSet args) := by
  rcases cmdSet_cases clock store args with
    ⟨raised, parsed, done⟩ | ⟨opts, previous, parsed, -, done⟩ |
      ⟨opts, reply, parsed, -, -, done⟩ <;>
    rw [done, parsed]
  · by_cases short : args.length < 2
    · have syntactic : parseSet args = .error syntaxError := by
        match args, short with
        | [], _ => rfl
        | [_], _ => rfl
      rw [syntactic] at parsed
      cases parsed
      rw [if_pos short]
      rfl
    · rw [if_neg short]
      rfl
  · rfl
  · rfl

/-- Whether a handler raises past `dispatch` depends on its arguments alone. -/
theorem escaping_handler (command : Command) :
    escaping (command.handler clock store args).1 = command.raises args := by
  cases command with
  | set => exact escaping_cmdSet clock store args
  | incr => exact escaping_counter clock store args 1
  | decr => exact escaping_counter clock store args (-1)
  | incrby => exact escaping_counterBy clock store args 1
  | decrby => exact escaping_counterBy clock store args (-1)
  | expire => exact escaping_lifetime clock store args 1
  | pexpire => exact escaping_lifetime clock store args 1000
  | pexpireat => exact escaping_cmdPexpireat clock store args
  | mset | mget | del | existsKey =>
      simp only [Command.handler, cmdMset, cmdMget, cmdDel, cmdExists, Command.raises]
      split_ifs <;> rfl
  | ping | echo | get | ttl | persist | keys | flushdb | dbsize =>
      simp only [Command.handler, cmdPing, cmdEcho, cmdGet, cmdTtl, cmdPersist, cmdKeys,
        cmdFlushdb, cmdDbsize, Command.raises]
      split <;> rfl

theorem isOk_replyTo (name : Text) (outcome : Except Raised Value × Store) :
    (replyTo name outcome).1.isOk = !escaping outcome.1 := by
  obtain ⟨result, store⟩ := outcome
  cases result with
  | ok reply => rfl
  | error raised => cases raised <;> rfl

/-- So does whether an exception passes `dispatch`. -/
theorem isOk_dispatch (command : List Arg) :
    (dispatch clock store command).1.isOk = !raises command := by
  cases command with
  | nil => rfl
  | cons head args =>
      simp only [dispatch, raises]
      cases Command.ofName (upper (toText head)) with
      | none => rfl
      | some command =>
          dsimp only
          rw [isOk_replyTo, escaping_handler]

end Raising

section Success

/-- The command was executed and its reply is not an error. -/
def Accepted : Except Raised Value → Prop
  | .ok reply => reply.isError = false
  | .error _ => False

instance : DecidablePred Accepted := fun outcome => by
  cases outcome <;> unfold Accepted <;> infer_instance

variable {clock : Clock} {store : Store} {args : List Arg}

theorem ofOption_isError (found : Option Arg) : (Value.ofOption found).isError = false := by
  cases found <;> rfl

theorem isError_cmdSet {reply : Value} (done : (cmdSet clock store args).1 = .ok reply) :
    reply.isError = false := by
  rcases cmdSet_cases clock store args with
    ⟨raised, -, outcome⟩ | ⟨opts, previous, -, -, outcome⟩ |
      ⟨opts, answer, -, -, shape, outcome⟩ <;>
    rw [outcome] at done <;> cases done
  · exact ofOption_isError previous
  · rcases shape with rfl | ⟨previous, rfl⟩
    · rfl
    · exact ofOption_isError previous

/-- Handlers report their errors by raising. -/
theorem isError_handler {command : Command} {reply : Value}
    (done : (command.handler clock store args).1 = .ok reply) :
    reply.isError = false := by
  have ofIncr {key : Arg} {delta : Int}
      (done : (runIncr clock store key delta).1 = .ok reply) : reply.isError = false := by
    unfold runIncr at done
    dsimp only at done
    split at done <;> cases done
    rfl
  cases command with
  | set => exact isError_cmdSet done
  | ping | echo =>
      simp only [Command.handler, cmdPing, cmdEcho] at done
      split at done <;> cases done <;> rfl
  | get =>
      simp only [Command.handler, cmdGet] at done
      split at done <;> cases done
      exact ofOption_isError _
  | mset | mget | del | existsKey =>
      simp only [Command.handler, cmdMset, cmdMget, cmdDel, cmdExists] at done
      split_ifs at done
      cases done
      rfl
  | incr | decr =>
      simp only [Command.handler, cmdIncr, cmdDecr, counter] at done
      split at done
      · exact ofIncr done
      · cases done
  | incrby | decrby =>
      simp only [Command.handler, cmdIncrby, cmdDecrby, counterBy] at done
      split at done
      · split at done
        · cases done
        · exact ofIncr done
      · cases done
  | expire | pexpire =>
      simp only [Command.handler, cmdExpire, cmdPexpire, lifetime] at done
      split at done
      · split at done <;> cases done
        rfl
      · cases done
  | pexpireat =>
      simp only [Command.handler, cmdPexpireat] at done
      split at done
      · split at done
        · cases done
        · split_ifs at done
          cases done
          rfl
      · cases done
  | ttl | persist | keys | flushdb | dbsize =>
      simp only [Command.handler, cmdTtl, cmdPersist, cmdKeys, cmdFlushdb,
        cmdDbsize] at done
      split at done <;> cases done <;> rfl

/-- A command is accepted when its handler returns. -/
theorem accepted_replyTo_iff {name : Text} {command : Command} :
    Accepted (replyTo name (command.handler clock store args)).1 ↔
      ∃ reply, (command.handler clock store args).1 = .ok reply := by
  constructor
  · intro accepted
    cases outcome : command.handler clock store args with
    | mk result left =>
        cases result with
        | ok reply => exact ⟨reply, rfl⟩
        | error raised =>
            rw [outcome] at accepted
            cases raised <;> simp [replyTo, Accepted, Value.isError] at accepted
  · rintro ⟨reply, done⟩
    have fine := isError_handler done
    cases outcome : command.handler clock store args with
    | mk result left =>
        rw [outcome] at done
        cases done
        exact fine

variable {plain : PlainMap}

theorem modify_none {current : ExpiringMap.Cell Arg Time} {now : Time}
    {update : Option Arg → Option Arg}
    (fails : update ((ExpiringMap.live now current).map Prod.fst) = none) :
    (Action.modify update).apply now current = current := by
  cases live : ExpiringMap.live now current with
  | none =>
      rw [live] at fails
      simp only [Option.map_none] at fails
      simp [Action.apply, live, fails]
  | some content =>
      rw [live] at fails
      simp only [Option.map_some] at fails
      simp [Action.apply, live, fails]

/-- An increment that fails acts on nothing. -/
theorem counterEffect_of_error (represents : Represents clock store plain) {key : Arg}
    {delta : Int} {raised : Raised}
    (failed : (runIncr clock store key delta).1 = .error raised) :
    (counterEffect key delta).apply clock.time plain = plain := by
  have result := Store.incr_result store clock.monotonic key delta
  have same : ((store.live clock.monotonic).get? key).map Prod.fst =
      (ExpiringMap.live clock.time (plain key)).map Prod.fst := by
    rw [represents.get? key, ExpiringMap.mapDeadline, Option.map_map]
    rfl
  rw [same] at result
  have outcome : ∃ message, (store.incr clock.monotonic key delta).1 = .error message := by
    unfold runIncr at failed
    dsimp only at failed
    split at failed
    · exact ⟨_, by assumption⟩
    · cases failed
  obtain ⟨message, outcome⟩ := outcome
  have fails : incrementUpdate key delta
      ((ExpiringMap.live clock.time (plain key)).map Prod.fst) = none := by
    rw [incrementUpdate, ← result, outcome]
  funext other
  by_cases here : key = other
  · subst other
    rw [counterEffect, ExpiringMap.Effect.apply_act_self, modify_none fails]
  · rw [counterEffect, ExpiringMap.Effect.apply_act_of_ne _ _ _ here]

/-- A command that raises acts on nothing. -/
theorem effects_of_error (represents : Represents clock store plain) {command : Command}
    {raised : Raised} (failed : (command.handler clock store args).1 = .error raised) :
    applyAll clock.time (command.effects clock.time plain args) plain = plain := by
  by_cases reads : ¬ command.Writes
  · rw [effects_of_reads reads]
    rfl
  cases command with
  | set =>
      rcases cmdSet_cases clock store args with
        ⟨_, parsed, done⟩ | ⟨opts, previous, parsed, -, done⟩ |
          ⟨opts, reply, parsed, -, -, done⟩
      · simp only [Command.effects, setEffects, parsed, ExpiringMap.applyAll_nil]
      · rw [Command.handler, done] at failed
        cases failed
      · rw [Command.handler, done] at failed
        cases failed
  | mset =>
      simp only [Command.handler, cmdMset] at failed
      split_ifs at failed with malformed
      rw [Command.effects, if_pos malformed]
      rfl
  | incr | decr =>
      rcases args with _ | ⟨key, _ | ⟨_, _⟩⟩
      · rfl
      · exact counterEffect_of_error represents failed
      · rfl
  | incrby | decrby =>
      rcases args with _ | ⟨key, _ | ⟨amount, _ | ⟨_, _⟩⟩⟩
      case cons.cons.nil =>
        simp only [Command.handler, cmdIncrby, cmdDecrby, counterBy] at failed
        simp only [Command.effects, counterByEffects]
        cases parsed : parseInt amount with
        | error _ => rfl
        | ok delta =>
            rw [parsed] at failed
            exact counterEffect_of_error represents failed
      all_goals rfl
  | del =>
      simp only [Command.handler, cmdDel] at failed
      split_ifs at failed with short
      rw [List.eq_nil_of_length_eq_zero (Nat.lt_one_iff.mp short)]
      rfl
  | expire | pexpire =>
      rcases args with _ | ⟨key, _ | ⟨amount, _ | ⟨_, _⟩⟩⟩
      case cons.cons.nil =>
        simp only [Command.handler, cmdExpire, cmdPexpire, lifetime] at failed
        simp only [Command.effects, lifetimeEffects]
        cases parsed : parseInt amount with
        | error _ => rfl
        | ok number =>
            rw [parsed] at failed
            cases failed
      all_goals rfl
  | pexpireat =>
      rcases args with _ | ⟨key, _ | ⟨moment, _ | ⟨_, _⟩⟩⟩
      case cons.cons.nil =>
        simp only [Command.handler, cmdPexpireat] at failed
        simp only [Command.effects, deadlineEffects]
        cases parsed : intOfText (toText moment) with
        | none => rfl
        | some unixMs =>
            rw [parsed] at failed
            dsimp only at failed ⊢
            split_ifs at failed with overflows
            rw [if_pos overflows]
            rfl
      all_goals rfl
  | persist =>
      rcases args with _ | ⟨key, _ | ⟨_, _⟩⟩
      · rfl
      · cases failed
      · rfl
  | flushdb =>
      rcases args with _ | ⟨_, _⟩
      · cases failed
      · rfl
  | ping | echo | get | mget | existsKey | ttl | keys | dbsize =>
      exact absurd not_false reads

/-- A whole command that is not accepted acts on nothing. -/
theorem effects_of_refused (represents : Represents clock store plain) {command : List Arg}
    (refused : ¬ Accepted (dispatch clock store command).1) :
    applyAll clock.time (commandEffects clock.time plain command) plain = plain := by
  unfold commandEffects
  cases known : Command.ofCommand command with
  | none => rfl
  | some found =>
      obtain ⟨name, done⟩ := dispatch_of_known known clock store
      rw [done, accepted_replyTo_iff] at refused
      cases outcome : (found.handler clock store command.tail).1 with
      | ok reply => exact absurd ⟨reply, outcome⟩ refused
      | error raised => exact effects_of_error represents outcome

end Success

section Refusal

variable {clock : Clock} {store : Store} {args : List Arg}

theorem runIncr_store_of_error {key : Arg} {delta : Int} {raised : Raised}
    (failed : (runIncr clock store key delta).1 = .error raised) :
    (runIncr clock store key delta).2 = (store.fetch clock.monotonic key).2 := by
  rcases Store.incr_cases store clock.monotonic key delta with
    ⟨message, -, done⟩ | ⟨new, -, done⟩
  · simp only [runIncr, done]
  · simp only [runIncr, done] at failed
    cases failed

/-- A command that raises leaves the store as it is, or as the search for the
key of a counter leaves it. -/
theorem store_of_error {command : Command} {raised : Raised}
    (failed : (command.handler clock store args).1 = .error raised) :
    (command.handler clock store args).2 = store ∨
      ∃ key, (command.handler clock store args).2 =
        (store.fetch clock.monotonic key).2 := by
  cases command with
  | set =>
      rcases cmdSet_cases clock store args with
        ⟨_, -, done⟩ | ⟨_, _, -, -, done⟩ | ⟨_, _, -, -, -, done⟩
      · rw [Command.handler, done]
        exact Or.inl rfl
      all_goals
        rw [Command.handler, done] at failed
        cases failed
  | mset | mget | del | existsKey =>
      simp only [Command.handler, cmdMset, cmdMget, cmdDel, cmdExists] at failed ⊢
      split_ifs at failed ⊢
      exact Or.inl rfl
  | incr | decr =>
      rcases args with _ | ⟨key, _ | ⟨_, _⟩⟩
      · exact Or.inl rfl
      · exact Or.inr ⟨key, runIncr_store_of_error failed⟩
      · exact Or.inl rfl
  | incrby | decrby =>
      rcases args with _ | ⟨key, _ | ⟨amount, _ | ⟨_, _⟩⟩⟩
      case cons.cons.nil =>
        simp only [Command.handler, cmdIncrby, cmdDecrby, counterBy] at failed ⊢
        cases parsed : parseInt amount with
        | error _ => exact Or.inl rfl
        | ok delta =>
            rw [parsed] at failed
            exact Or.inr ⟨key, runIncr_store_of_error failed⟩
      all_goals exact Or.inl rfl
  | expire | pexpire =>
      rcases args with _ | ⟨key, _ | ⟨amount, _ | ⟨_, _⟩⟩⟩
      case cons.cons.nil =>
        simp only [Command.handler, cmdExpire, cmdPexpire, lifetime] at failed ⊢
        cases parsed : parseInt amount with
        | error _ => exact Or.inl rfl
        | ok number =>
            rw [parsed] at failed
            cases failed
      all_goals exact Or.inl rfl
  | pexpireat =>
      rcases args with _ | ⟨key, _ | ⟨moment, _ | ⟨_, _⟩⟩⟩
      case cons.cons.nil =>
        simp only [Command.handler, cmdPexpireat] at failed ⊢
        cases parsed : intOfText (toText moment) with
        | none => exact Or.inl rfl
        | some unixMs =>
            rw [parsed] at failed
            dsimp only at failed ⊢
            split_ifs at failed ⊢
            exact Or.inl rfl
      all_goals exact Or.inl rfl
  | ping | echo | get | ttl | persist | keys | flushdb | dbsize =>
      simp only [Command.handler, cmdPing, cmdEcho, cmdGet, cmdTtl, cmdPersist, cmdKeys,
        cmdFlushdb, cmdDbsize] at failed ⊢
      split at failed
      all_goals
        cases failed
        try exact Or.inl rfl

theorem store_of_refused {command : List Arg}
    (refused : ¬ Accepted (dispatch clock store command).1) :
    (dispatch clock store command).2 = store ∨
      ∃ key, (dispatch clock store command).2 = (store.fetch clock.monotonic key).2 := by
  cases known : Command.ofCommand command with
  | none =>
      obtain ⟨message, done⟩ := dispatch_of_unknown known clock store
      rw [done]
      exact Or.inl rfl
  | some found =>
      obtain ⟨name, done⟩ := dispatch_of_known known clock store
      rw [done, accepted_replyTo_iff] at refused
      rw [done, replyTo_store]
      cases outcome : (found.handler clock store command.tail).1 with
      | ok reply => exact absurd ⟨reply, outcome⟩ refused
      | error raised => exact store_of_error outcome

/-- A command that is not accepted only looks, on any store. -/
theorem observes_of_refused {command : List Arg}
    (refused : ¬ Accepted (dispatch clock store command).1) :
    Observes clock.monotonic store (dispatch clock store command).2 := by
  rcases store_of_refused refused with same | ⟨key, fetched⟩
  · rw [same]
    exact Observes.refl _ store
  · rw [fetched]
    exact observes_fetch clock.monotonic store key

/-- So does a command that does not write. -/
theorem observes_of_reads {command : List Arg}
    (reads : ∀ found, Command.ofCommand command = some found → ¬ found.Writes) :
    Observes clock.monotonic store (dispatch clock store command).2 := by
  cases known : Command.ofCommand command with
  | none =>
      obtain ⟨message, done⟩ := dispatch_of_unknown known clock store
      rw [done]
      exact Observes.refl _ store
  | some found =>
      obtain ⟨name, done⟩ := dispatch_of_known known clock store
      rw [done, replyTo_store]
      exact observes_handler (reads found known) clock store command.tail

/-- Evicting is not writing. -/
theorem Store.evict_writes (store : Store) (now : Time) :
    (store.evict now).writes = store.writes := by
  unfold Store.evict
  split_ifs
  · rfl
  · have swept : (store.sweepExpired now).2.writes = store.writes :=
      (Store.sweep_frame store).2.2.1
    refine @Store.evictLoop_induct (fun left => left.writes = store.writes) ?_ _ _ swept
    intro left key entry same _ _ _
    simpa using same

/-- A `SET` that leaves the write counter alone was held back. -/
theorem observes_cmdSet (same : (cmdSet clock store args).2.writes = store.writes) :
    Observes clock.monotonic store (cmdSet clock store args).2 := by
  rcases cmdSet_cases clock store args with
    ⟨_, -, done⟩ | ⟨opts, _, -, -, done⟩ | ⟨opts, _, -, -, -, done⟩
  · rw [done]
    exact Observes.refl _ store
  · rw [done]
    exact observes_afterLookup clock store opts
  · rw [done] at same
    have looked := (observes_afterLookup clock store opts).writes
    rw [Store.set_eq, Store.evict_writes, Store.setCore_writes, looked] at same
    omega

end Refusal

end MiniCache
