import MiniCache.CommandOutcome
import MiniCache.ProtocolRoundTrip

/-!
# Errors and exceptions of commands

An error reply leaves no trace but the removal of one expired entry.  A command
gets a reply of some kind except in three cases, which its arguments show: an
amount with more digits than `int` converts, at one of four commands or in the
options of `SET`, and an instant past the range of a float.
-/

namespace MiniCache

section Refusal

/-- Nothing has happened but the removal of an expired entry, with its place in
the memory account and among the expired keys. -/
def OnlyExpires (now : Time) (store left : Store) : Prop :=
  left = store ∨ ∃ key entry, store.data.get? key = some entry ∧
    entry.isExpired now = true ∧ left =
      { store with
        data := store.data.pop key
        usedMemory := store.usedMemory - entry.size
        expiredKeys := store.expiredKeys + 1 }

/-- The live contents in order of recency, the pending evictions and the write
counter are as before, and at most an expired entry is gone. -/
structure Untouched (now : Time) (store left : Store) : Prop where
  live : left.live now = store.live now
  evicted : left.evicted = store.evicted
  writes : left.writes = store.writes
  onlyExpires : OnlyExpires now store left

variable {now : Time} {store left : Store}

theorem onlyExpires_fetch (now : Time) (store : Store) (key : Arg) :
    OnlyExpires now store (store.fetch now key).2 := by
  unfold Store.fetch
  cases present : store.data.get? key with
  | none => exact Or.inl rfl
  | some entry =>
      cases expired : entry.isExpired now with
      | false => exact Or.inl (by simp [expired])
      | true => exact Or.inr ⟨key, entry, present, expired, by simp [expired, Store.remove, present]⟩

theorem OnlyExpires.live (onlyExpires : OnlyExpires now store left) :
    left.live now = store.live now := by
  rcases onlyExpires with rfl | ⟨key, entry, present, expired, rfl⟩
  · rfl
  · have dead : (store.live now).get? key = none := by
      rw [Store.get?_live, present]
      exact ExpiringMap.live_some_of_not_alive _ (Entry.isExpired_iff.mp expired)
    rw [← Store.live_remove_of_dead true dead]
    exact Store.live_of_data (Store.remove_data store key true).symm

theorem OnlyExpires.untouched (onlyExpires : OnlyExpires now store left) :
    Untouched now store left := by
  refine ⟨onlyExpires.live, ?_, ?_, onlyExpires⟩ <;>
    rcases onlyExpires with rfl | ⟨key, entry, -, -, rfl⟩ <;> rfl

/-- The dispatcher returns an `Error`. -/
def ReturnsError : Except Raised Value → Prop
  | .ok reply => reply.isError = true
  | .error _ => False

instance : DecidablePred ReturnsError
  | .ok reply => inferInstanceAs (Decidable (reply.isError = true))
  | .error _ => inferInstanceAs (Decidable False)

theorem ReturnsError.not_accepted {outcome : Except Raised Value}
    (failed : ReturnsError outcome) : ¬ Accepted outcome := by
  cases outcome with
  | ok reply =>
      intro accepted
      exact absurd (show reply.isError = true from failed)
        (by rw [show reply.isError = false from accepted]; decide)
  | error raised => exact failed.elim

/-- A command that is answered by an error changes nothing. -/
theorem untouched_of_error {clock : Clock} {command : List Arg}
    (failed : ReturnsError (dispatch clock store command).1) :
    Untouched clock.monotonic store (dispatch clock store command).2 := by
  have refused := failed.not_accepted
  rcases store_of_refused refused with same | ⟨key, fetched⟩
  · exact OnlyExpires.untouched (Or.inl same)
  · rw [fetched]
    exact (onlyExpires_fetch clock.monotonic store key).untouched

/-- A store whose only key has expired at the time of the next command. -/
def expiredStore : Store := (Store.init 0 .allkeysLru).set 0 (.bytes [107]) (.bytes [49]) (some 1)

/-- A counter that would overflow, over an entry that has expired. -/
def overflowingDecrby : List Arg :=
  [.bytes (encodeUtf8 "DECRBY".toList), .bytes [107], .bytes (encodeUtf8 (intText (-(2 ^ 63))))]

theorem untouched_overflowingDecrby :
    Untouched (Clock.afterEpoch 2000).monotonic expiredStore
      (dispatch (Clock.afterEpoch 2000) expiredStore overflowingDecrby).2 :=
  untouched_of_error (by decide +kernel)

end Refusal

section Escaping

/-- More digits than `int` converts, with an optional sign and nothing else. -/
def Overlong (arg : Arg) : Prop :=
  matchesInt (toText arg) = true ∧
    maxStrDigits < ((toText arg).filter Char.isDigit).length

instance : DecidablePred Overlong := fun _ => inferInstanceAs (Decidable (_ ∧ _))

/-- An option of `SET` that stands alone. -/
def IsFlag (option : Arg) : Prop :=
  upper (toText option) ∈ ["NX".toList, "XX".toList, "GET".toList]

/-- An option of `SET` with an amount after it. -/
def IsUnit (option : Arg) : Prop :=
  upper (toText option) ∈ ["EX".toList, "PX".toList]

/-- The options of a `SET` up to the first amount, which is too long. -/
def OptionsOverlong (options : List Arg) : Prop :=
  ∃ flags unit amount rest, options = flags ++ unit :: amount :: rest ∧
    (∀ flag ∈ flags, IsFlag flag) ∧ IsUnit unit ∧ Overlong amount

/-- The arguments of a command that ask for a number Python refuses to make. -/
def Command.Unconvertible (args : List Arg) : Command → Prop
  | .set => ∃ key value options, args = key :: value :: options ∧ OptionsOverlong options
  | .incrby | .decrby | .expire | .pexpire =>
      ∃ key amount, args = [key, amount] ∧ Overlong amount
  | .pexpireat => ∃ key moment unixMs, args = [key, moment] ∧
      intOfText (toText moment) = some unixMs ∧ QuotientOverflows unixMs
  | .ping | .echo | .get | .mset | .mget | .incr | .decr | .del | .existsKey | .ttl
  | .persist | .keys | .flushdb | .dbsize => False

/-- A command whose numbers Python can make. -/
def Convertible (command : List Arg) : Prop :=
  ∀ found, Command.ofCommand command = some found → ¬ found.Unconvertible command.tail

theorem matchesInt_cases {text : Text} (shape : matchesInt text = true) :
    (∃ run, text = '-' :: run ∧ AllDigits run) ∨ AllDigits text := by
  unfold matchesInt at shape
  split at shape
  · rename_i run
    simp only [Bool.and_eq_true, Bool.not_eq_true', List.isEmpty_eq_false_iff,
      List.all_eq_true] at shape
    exact Or.inl ⟨run, rfl, shape⟩
  · simp only [Bool.and_eq_true, Bool.not_eq_true', List.isEmpty_eq_false_iff,
      List.all_eq_true] at shape
    exact Or.inr shape

theorem AllDigits.filter_eq {run : Text} (digits : AllDigits run) :
    run.filter Char.isDigit = run :=
  List.filter_eq_self.mpr digits.2

theorem AllDigits.printable {run : Text} (digits : AllDigits run) :
    ∀ char ∈ run, char.toNat < 127 := by
  intro char member
  have bounds := toNat_of_isDigit (digits.2 char member)
  omega

/-- What `_INT_RE` accepts is a number unless it has too many digits. -/
theorem intOfText_eq_none_iff {text : Text} (shape : matchesInt text = true) :
    intOfText text = none ↔ maxStrDigits < (text.filter Char.isDigit).length := by
  rcases matchesInt_cases shape with ⟨run, rfl, digits⟩ | digits
  · have printable : ∀ char ∈ '-' :: run, char.toNat < 127 := by
      intro char member
      rcases List.mem_cons.mp member with rfl | inRun
      · decide
      · exact digits.printable char inRun
    have unsigned : ('-' :: run).filter Char.isDigit = run := by
      rw [List.filter_cons_of_neg (by decide), digits.filter_eq]
    rw [intOfText_of_printable printable, readInt_neg, readDigits_of_allDigits digits, unsigned]
    split_ifs with short <;> simp <;> omega
  · rw [intOfText_of_printable digits.printable, readInt_of_allDigits digits,
      readDigits_of_allDigits digits, digits.filter_eq]
    split_ifs with short <;> simp <;> omega

theorem escaping_parseInt (arg : Arg) : escaping (parseInt arg) = true ↔ Overlong arg := by
  unfold parseInt Overlong
  dsimp only
  cases shape : matchesInt (toText arg) with
  | false => simp [escaping, Raised.escapes]
  | true =>
      rw [← intOfText_eq_none_iff shape]
      cases intOfText (toText arg) with
      | none => simp [escaping, Raised.escapes]
      | some number => by_cases inRange : InInt64 number <;>
          simp [inRange, escaping, Raised.escapes]

theorem escaping_parseTtl (unit : Text) (arg : Arg) :
    escaping (parseTtl unit arg) = true ↔ Overlong arg := by
  rw [← escaping_parseInt, parseTtl]
  cases parseInt arg with
  | error raised => rfl
  | ok number =>
      dsimp only
      split_ifs <;> simp [escaping, Raised.escapes]

theorem IsUnit.not_isFlag {option : Arg} (unit : IsUnit option) : ¬ IsFlag option := by
  unfold IsUnit at unit
  unfold IsFlag
  simp only [List.mem_cons, List.not_mem_nil, or_false] at unit
  rcases unit with same | same <;> rw [same] <;> decide

variable {arg : Arg} {options : List Arg}

theorem not_optionsOverlong_nil : ¬ OptionsOverlong [] := by
  rintro ⟨flags, unit, amount, rest, same, -⟩
  simp at same

theorem optionsOverlong_cons_flag (flag : IsFlag arg) :
    OptionsOverlong (arg :: options) ↔ OptionsOverlong options := by
  constructor
  · rintro ⟨flags, unit, amount, rest, same, allFlags, isUnit, overlong⟩
    cases flags with
    | nil =>
        obtain ⟨rfl, -⟩ := List.cons.inj same
        exact absurd flag isUnit.not_isFlag
    | cons first flags =>
        obtain ⟨-, same⟩ := List.cons.inj same
        exact ⟨flags, unit, amount, rest, same,
          fun other member => allFlags other (List.mem_cons_of_mem _ member), isUnit, overlong⟩
  · rintro ⟨flags, unit, amount, rest, rfl, allFlags, isUnit, overlong⟩
    exact ⟨arg :: flags, unit, amount, rest, rfl,
      List.forall_mem_cons.mpr ⟨flag, allFlags⟩, isUnit, overlong⟩

theorem optionsOverlong_cons_of_not_flag (notFlag : ¬ IsFlag arg) :
    OptionsOverlong (arg :: options) ↔
      IsUnit arg ∧ ∃ amount rest, options = amount :: rest ∧ Overlong amount := by
  constructor
  · rintro ⟨flags, unit, amount, rest, same, allFlags, isUnit, overlong⟩
    cases flags with
    | nil =>
        obtain ⟨rfl, rfl⟩ := List.cons.inj same
        exact ⟨isUnit, amount, rest, rfl, overlong⟩
    | cons first flags =>
        obtain ⟨rfl, -⟩ := List.cons.inj same
        exact absurd (allFlags arg (List.mem_cons_self ..)) notFlag
  · rintro ⟨isUnit, amount, rest, rfl, overlong⟩
    exact ⟨[], arg, amount, rest, rfl, by simp, isUnit, overlong⟩

/-- The scan of the options raises past `dispatch` at the first amount or not at
all: a second amount is a syntax error. -/
theorem escaping_parseSetOptions (options : List Arg) (opts : SetOptions) :
    escaping (parseSetOptions options opts) = true ↔
      opts.ttl = none ∧ OptionsOverlong options := by
  have flagOf {arg : Arg} {name : Text} (same : upper (toText arg) = name)
      (known : name ∈ ["NX".toList, "XX".toList, "GET".toList]) : IsFlag arg := by
    rw [IsFlag, same]
    exact known
  have notFlagOf {arg : Arg} (notNx : upper (toText arg) ≠ "NX".toList)
      (notXx : upper (toText arg) ≠ "XX".toList)
      (notGet : upper (toText arg) ≠ "GET".toList) : ¬ IsFlag arg := by
    unfold IsFlag
    rw [List.mem_cons, List.mem_cons, List.mem_singleton]
    tauto
  have unitOf {arg : Arg} (timed : upper (toText arg) = "EX".toList ∨
      upper (toText arg) = "PX".toList) : IsUnit arg := by
    unfold IsUnit
    rwa [List.mem_cons, List.mem_singleton]
  fun_induction parseSetOptions options opts with
  | case1 opts => simp [escaping, not_optionsOverlong_nil]
  | case2 arg rest opts option isNx ih =>
      rw [optionsOverlong_cons_flag (flagOf isNx (by simp))]
      exact ih
  | case3 arg rest opts option _ isXx ih =>
      rw [optionsOverlong_cons_flag (flagOf isXx (by simp))]
      exact ih
  | case4 arg rest opts option _ _ isGet ih =>
      rw [optionsOverlong_cons_flag (flagOf isGet (by simp))]
      exact ih
  | case5 arg opts option notNx notXx notGet timed number rest unset raised read =>
      have overlong := escaping_parseTtl option number
      rw [read] at overlong
      have notFlag : ¬ IsFlag arg := notFlagOf notNx notXx notGet
      rw [optionsOverlong_cons_of_not_flag notFlag]
      constructor
      · intro escapes
        exact ⟨unset, unitOf timed, number, rest, rfl, overlong.mp escapes⟩
      · rintro ⟨-, -, _, _, same, tooLong⟩
        obtain ⟨rfl, -⟩ := List.cons.inj same
        exact overlong.mpr tooLong
  | case6 arg opts option notNx notXx notGet timed number rest unset ttl read ih =>
      have overlong := escaping_parseTtl option number
      rw [read] at overlong
      have notFlag : ¬ IsFlag arg := notFlagOf notNx notXx notGet
      rw [optionsOverlong_cons_of_not_flag notFlag]
      constructor
      · intro escapes
        exact absurd (ih.mp escapes).1 (by simp)
      · rintro ⟨-, -, _, _, same, tooLong⟩
        obtain ⟨rfl, -⟩ := List.cons.inj same
        exact absurd (overlong.mpr tooLong) (by simp [escaping])
  | case7 arg rest opts option notNx notXx notGet timed noAmount =>
      have notFlag : ¬ IsFlag arg := notFlagOf notNx notXx notGet
      rw [optionsOverlong_cons_of_not_flag notFlag]
      constructor
      · intro escapes
        cases escapes
      · rintro ⟨unset, -, amount, others, same, -⟩
        exact (noAmount amount others unset same).elim
  | case8 arg rest opts option notNx notXx notGet notTimed =>
      have notFlag : ¬ IsFlag arg := notFlagOf notNx notXx notGet
      rw [optionsOverlong_cons_of_not_flag notFlag]
      constructor
      · intro escapes
        cases escapes
      · rintro ⟨-, isUnit, -⟩
        exact absurd (by simpa [IsUnit] using isUnit) notTimed

theorem escaping_parseSet (args : List Arg) :
    escaping (parseSet args) = true ↔
      ∃ key value options, args = key :: value :: options ∧ OptionsOverlong options := by
  match args with
  | [] | [_] => simp [parseSet, escaping, syntaxError, Raised.escapes]
  | key :: value :: options =>
      have scanned := escaping_parseSetOptions options ⟨key, value, false, false, false, none⟩
      have whole : escaping (parseSet (key :: value :: options)) =
          escaping (parseSetOptions options ⟨key, value, false, false, false, none⟩) := by
        rw [parseSet]
        cases parseSetOptions options ⟨key, value, false, false, false, none⟩ with
        | error raised => rfl
        | ok opts =>
            dsimp only
            split_ifs <;> rfl
      rw [whole, scanned]
      simp

theorem amountEscapes_iff (args : List Arg) :
    amountEscapes args = true ↔ ∃ key amount, args = [key, amount] ∧ Overlong amount := by
  match args with
  | [key, amount] =>
      rw [amountEscapes, escaping_parseInt]
      simp
  | [] | [_] | _ :: _ :: _ :: _ => simp [amountEscapes]

theorem momentEscapes_iff (args : List Arg) :
    momentEscapes args = true ↔ ∃ key moment unixMs, args = [key, moment] ∧
      intOfText (toText moment) = some unixMs ∧ QuotientOverflows unixMs := by
  match args with
  | [key, moment] =>
      cases read : intOfText (toText moment) <;> simp [momentEscapes, read]
  | [] | [_] | _ :: _ :: _ :: _ => simp [momentEscapes]

theorem Command.raises_iff (command : Command) (args : List Arg) :
    command.raises args = true ↔ command.Unconvertible args := by
  cases command with
  | set => exact escaping_parseSet args
  | incrby | decrby | expire | pexpire => exact amountEscapes_iff args
  | pexpireat => exact momentEscapes_iff args
  | ping | echo | get | mset | mget | incr | decr | del | existsKey | ttl | persist | keys
  | flushdb | dbsize => simp [Command.raises, Command.Unconvertible]

theorem not_raises_iff (command : List Arg) : raises command = false ↔ Convertible command := by
  cases known : Command.ofCommand command with
  | none =>
      simp [raises_of_unknown known, Convertible, known]
  | some found =>
      rw [raises_of_known known, ← Bool.not_eq_true, Command.raises_iff]
      simp [Convertible, known]

/-- `dispatch` returns, on any store, exactly when Python can make the numbers
that the command names. -/
theorem dispatch_returns_iff (clock : Clock) (store : Store) (command : List Arg) :
    (∃ reply, (dispatch clock store command).1 = .ok reply) ↔ Convertible command := by
  rw [← not_raises_iff, ← Bool.not_eq_true', ← isOk_dispatch clock store command]
  cases (dispatch clock store command).1 <;> simp [Except.isOk, Except.toBool]

/-- `INCRBY n` with 4301 ones. -/
def overlongIncrby : List Bytes :=
  [encodeUtf8 "INCRBY".toList, [110], List.replicate 4301 49]

theorem not_returns_overlongIncrby :
    Deliverable overlongIncrby ∧
      ¬ ∃ reply, (dispatch Clock.epoch (Store.init 0 .allkeysLru)
        (overlongIncrby.map .bytes)).1 = .ok reply := by
  refine ⟨by decide +kernel, ?_⟩
  rintro ⟨reply, returned⟩
  have raised := isOk_dispatch Clock.epoch (Store.init 0 .allkeysLru)
    (overlongIncrby.map .bytes)
  rw [returned, show raises (overlongIncrby.map .bytes) = true by decide +kernel] at raised
  cases raised

end Escaping

end MiniCache
