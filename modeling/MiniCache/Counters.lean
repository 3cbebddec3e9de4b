import MiniCache.CommandErrors
import Mathlib.Data.List.ReduceOption

/-!
# Counters

`INCR`, `DECR`, `INCRBY` and `DECRBY` on one key of a store without a limit, against a
64-bit counter that refuses what it cannot hold.  The number is printed and read back at
every step, so the induction over the commands carries what the stored text spells.
-/

namespace MiniCache

section Decimals

/-- The text of a 64-bit number: an optional minus sign and at most 4300 digits, with
leading zeros or without. -/
inductive Decimal : Text → Int → Prop
  | unsigned {digits : Text} : AllDigits digits → digits.length ≤ 4300 →
      InInt64 (Nat.ofDigitChars 10 digits 0) → Decimal digits (Nat.ofDigitChars 10 digits 0)
  | signed {digits : Text} : AllDigits digits → digits.length ≤ 4300 →
      InInt64 (-(Nat.ofDigitChars 10 digits 0 : Int)) →
        Decimal ('-' :: digits) (-(Nat.ofDigitChars 10 digits 0 : Int))

/-- An argument, `bytes` or `str`, is the text of a 64-bit number. -/
def Spells (arg : Arg) (number : Int) : Prop :=
  ∃ text, Decimal text number ∧ (arg = .bytes (encodeUtf8 text) ∨ arg = .str text)

variable {text : Text} {arg : Arg} {number : Int}

theorem Decimal.inRange (decimal : Decimal text number) : InInt64 number := by
  cases decimal <;> assumption

theorem Decimal.matchesInt (decimal : Decimal text number) : matchesInt text = true := by
  cases decimal with
  | unsigned digits => exact matchesInt_of_allDigits digits
  | signed digits => exact matchesInt_neg digits

theorem Decimal.printable (decimal : Decimal text number) : ∀ char ∈ text, char.toNat < 127 := by
  cases decimal with
  | unsigned digits => exact digits.printable
  | signed digits => exact List.forall_mem_cons.mpr ⟨by decide, digits.printable⟩

theorem Decimal.intOfText (decimal : Decimal text number) : intOfText text = some number := by
  rw [intOfText_of_printable decimal.printable]
  cases decimal with
  | unsigned digits short =>
      rw [readInt_of_allDigits digits, readDigits_of_allDigits digits,
        if_pos (show _ ≤ maxStrDigits from short)]
      rfl
  | signed digits short =>
      rw [readInt_neg, readDigits_of_allDigits digits,
        if_pos (show _ ≤ maxStrDigits from short)]
      rfl

theorem decimal_intText (inRange : InInt64 number) : Decimal (intText number) number := by
  have digits := toDigits_allDigits number.natAbs
  have bounded : number.natAbs < 10 ^ 19 := by
    unfold InInt64 at inRange
    omega
  have small : number.natAbs < 10 ^ maxStrDigits :=
    lt_of_lt_of_le bounded (Nat.pow_le_pow_right (by decide) (by decide))
  have short : (Nat.toDigits 10 number.natAbs).length ≤ maxStrDigits :=
    (Nat.length_toDigits_le_iff (by decide) (by decide)).mpr small
  have value : Nat.ofDigitChars 10 (Nat.toDigits 10 number.natAbs) 0 = number.natAbs :=
    Nat.ofDigitChars_ten_toDigits
  unfold intText
  split_ifs with negative
  · have same : number = -(Nat.ofDigitChars 10 (Nat.toDigits 10 number.natAbs) 0 : Int) := by
      rw [value]
      omega
    have decimal := Decimal.signed digits short (same ▸ inRange)
    rwa [← same] at decimal
  · have same : number = (Nat.ofDigitChars 10 (Nat.toDigits 10 number.natAbs) 0 : Int) := by
      rw [value]
      omega
    have decimal := Decimal.unsigned digits short (same ▸ inRange)
    rwa [← same] at decimal

theorem Spells.storedInt (spells : Spells arg number) : storedInt arg = .ok number := by
  obtain ⟨text, decimal, shape⟩ := spells
  have ascii : IsAscii text := fun char member =>
    Nat.lt_succ_of_lt (decimal.printable char member)
  have read : decodeAscii (encodeUtf8 text) = text :=
    (decodeAscii_of_ascii (encodeUtf8_small ascii)).trans (decodeUtf8_encodeUtf8 text)
  rcases shape with rfl | rfl
  · simp only [MiniCache.storedInt, read, decimal.matchesInt, decimal.intOfText, if_true,
      if_pos decimal.inRange]
  · simp only [MiniCache.storedInt, decimal.matchesInt, decimal.intOfText, if_true,
      if_pos decimal.inRange]

theorem Spells.parseInt (spells : Spells arg number) : parseInt arg = .ok number := by
  obtain ⟨text, decimal, shape⟩ := spells
  have read : toText arg = text := by
    rcases shape with rfl | rfl
    · exact decodeUtf8_encodeUtf8 text
    · rfl
  unfold MiniCache.parseInt
  dsimp only
  rw [read, if_pos decimal.matchesInt, decimal.intOfText]
  exact if_pos decimal.inRange

theorem spells_ofText (sample : Arg) (inRange : InInt64 number) :
    Spells (sample.ofText (intText number)) number := by
  refine ⟨intText number, decimal_intText inRange, ?_⟩
  cases sample with
  | bytes data => exact .inl rfl
  | str text => exact .inr rfl

end Decimals

section Counting

/-- The numbers that a 64-bit counter answers, or none where the sum does not fit. -/
def sums : Int → List Int → List (Option Int)
  | _, [] => []
  | number, delta :: deltas =>
      if InInt64 (number + delta) then some (number + delta) :: sums (number + delta) deltas
      else none :: sums number deltas

/-- The content after the last sum: its decimal form in the type of the first sample,
with the deadline there was. -/
def counted (key : Arg) (content : Option Content) (number : Int) (deltas : List Int) :
    Option Content :=
  match (sums number deltas).reduceOption.getLast? with
  | none => content
  | some total =>
      some (Store.incrementedValue key (content.map Prod.fst) total, content.bind Prod.snd)

/-- The reply to a counter command. -/
def countReply : Option Int → Except Raised Value
  | some sum => .ok (.int sum)
  | none => .ok (.error "ERR increment or decrement would overflow".toList)

/-- The number that a content counts from. -/
def Counts : Option Content → Int → Prop
  | none, number => number = 0
  | some content, number => Spells content.1 number

/-- A counter command on a key, with what it adds. -/
def Adds (key : Arg) (command : List Arg) (delta : Int) : Prop :=
  (Command.ofCommand command = some .incr ∧ command.tail = [key] ∧ delta = 1) ∨
    (Command.ofCommand command = some .decr ∧ command.tail = [key] ∧ delta = -1) ∨
    (∃ amount number, Command.ofCommand command = some .incrby ∧
      command.tail = [key, amount] ∧ Spells amount number ∧ delta = number) ∨
    ∃ amount number, Command.ofCommand command = some .decrby ∧
      command.tail = [key, amount] ∧ Spells amount number ∧ delta = -number

/-- The replies to commands, each at its own time, and the store they leave. -/
def dispatchEach (store : Store) : List (Clock × List Arg) → List (Except Raised Value) × Store
  | [] => ([], store)
  | (clock, command) :: steps =>
      let outcome := dispatch clock store command
      let others := dispatchEach outcome.2 steps
      (outcome.1 :: others.1, others.2)

variable {clock : Clock} {store : Store} {key : Arg} {content : Option Content}
  {number delta : Int} {command : List Arg}

theorem dispatch_adds (adds : Adds key command delta) (clock : Clock) (store : Store) :
    ∃ name, dispatch clock store command = replyTo name (runIncr clock store key delta) := by
  rcases adds with ⟨known, tail, rfl⟩ | ⟨known, tail, rfl⟩ |
    ⟨amount, number, known, tail, spells, rfl⟩ | ⟨amount, number, known, tail, spells, rfl⟩
  all_goals
    obtain ⟨name, dispatched⟩ := dispatch_of_known known clock store
    refine ⟨name, ?_⟩
    rw [dispatched, tail]
  · rfl
  · rfl
  · simp only [Command.handler, cmdIncrby, counterBy, spells.parseInt, Int.one_mul]
  · simp only [Command.handler, cmdDecrby, counterBy, spells.parseInt, Int.neg_mul, Int.one_mul]

theorem Counts.incremented (counts : Counts content number) (delta : Int) :
    Store.incremented (content.map Prod.fst) delta =
      if InInt64 (number + delta) then .ok (number + delta)
      else .error "increment or decrement would overflow".toList := by
  cases content with
  | none =>
      obtain rfl : number = 0 := counts
      rw [Int.zero_add]
      rfl
  | some content =>
      have stored : storedInt content.1 = .ok number := Spells.storedInt counts
      simp only [Option.map_some, Store.incremented, stored]

/-- One counter command: the reply of the counter, and the content it leaves. -/
theorem dispatch_counts (unlimited : store.maxmemory = 0)
    (held : (store.live clock.monotonic).get? key = content) (counts : Counts content number)
    (adds : Adds key command delta) :
    let sum := if InInt64 (number + delta) then some (number + delta) else none
    let left := (dispatch clock store command).2
    (dispatch clock store command).1 = countReply sum ∧ left.maxmemory = 0 ∧
      (left.live clock.monotonic).get? key = match sum with
        | none => content
        | some sum =>
            some (Store.incrementedValue key (content.map Prod.fst) sum,
              content.bind Prod.snd) := by
  obtain ⟨name, dispatched⟩ := dispatch_adds adds clock store
  have outcome := counts.incremented delta
  rw [← held] at outcome ⊢
  rw [dispatched]
  rcases Store.incr_cases store clock.monotonic key delta with
    ⟨message, failed, done⟩ | ⟨new, succeeded, done⟩
  · rw [failed] at outcome
    split_ifs at outcome with inRange
    obtain rfl := Except.error.inj outcome
    rw [if_neg inRange]
    simp only [runIncr, done, replyTo]
    exact ⟨rfl, (Store.keeps_fetch store clock.monotonic key).maxmemory.trans unlimited,
      by rw [Store.live_fetch]⟩
  · rw [succeeded] at outcome
    split_ifs at outcome with inRange
    obtain rfl := Except.ok.inj outcome
    have stays := (Store.keeps_incrCore store clock.monotonic key (number + delta)).maxmemory
    rw [if_pos inRange]
    simp only [runIncr, done, replyTo]
    rw [Store.evict_of_unlimited _ _ (stays.trans unlimited)]
    refine ⟨rfl, stays.trans unlimited, ?_⟩
    rw [Store.live_incrCore, OrderedDict.get?_put, if_pos rfl]

theorem Counts.left (counts : Counts content number) (key : Arg) (delta : Int) :
    let sum := if InInt64 (number + delta) then some (number + delta) else none
    Counts (match sum with
      | none => content
      | some sum =>
          some (Store.incrementedValue key (content.map Prod.fst) sum, content.bind Prod.snd))
      (sum.getD number) := by
  dsimp only
  split_ifs with inRange
  · exact spells_ofText _ inRange
  · exact counts

theorem counted_cons (key : Arg) (content : Option Content) (number delta : Int)
    (deltas : List Int) :
    let sum := if InInt64 (number + delta) then some (number + delta) else none
    counted key content number (delta :: deltas) = counted key (match sum with
      | none => content
      | some sum =>
          some (Store.incrementedValue key (content.map Prod.fst) sum, content.bind Prod.snd))
      (sum.getD number) deltas := by
  have sample (first second : Int) : Store.incrementedValue key
      (some (Store.incrementedValue key (content.map Prod.fst) first)) second =
        Store.incrementedValue key (content.map Prod.fst) second := by
    cases content with
    | none => cases key <;> rfl
    | some content =>
        obtain ⟨value, deadline⟩ := content
        cases value <;> rfl
  dsimp only
  unfold counted
  rw [sums]
  split_ifs with inRange
  · rw [List.reduceOption_cons_of_some, List.getLast?_cons]
    simp only [Option.getD_some]
    cases (sums (number + delta) deltas).reduceOption.getLast? with
    | none => rfl
    | some total => simp only [Option.getD_some, Option.map_some, sample, Option.bind_some]
  · rw [List.reduceOption_cons_of_none]
    rfl

theorem inRange_of_mem_sums {deltas : List Int} {sum : Int}
    (member : some sum ∈ sums number deltas) : InInt64 sum := by
  induction deltas generalizing number with
  | nil => cases member
  | cons delta deltas ih =>
      rw [sums] at member
      split_ifs at member with inRange
      · rcases List.mem_cons.mp member with same | later
        · exact Option.some.inj same ▸ inRange
        · exact ih later
      · rcases List.mem_cons.mp member with impossible | later
        · cases impossible
        · exact ih later

/-- A content stays until its deadline, and a key that is absent stays so. -/
theorem held_later {start now : Time} (held : (store.live start).get? key = content)
    (inOrder : start ≤ now) (alive : ExpiringMap.Alive now (content.bind Prod.snd)) :
    (store.live now).get? key = content := by
  rw [Store.live_later inOrder, get?_prune, held]
  cases content with
  | none => rfl
  | some content => exact ExpiringMap.live_some_of_alive content.1 alive

theorem dispatchEach_counts {start : Time} (unlimited : store.maxmemory = 0)
    (held : (store.live start).get? key = content) (counts : Counts content number)
    {steps : List (Clock × List Arg)} {deltas : List Int}
    (commands : List.Forall₂ (fun step delta => Adds key step.2 delta) steps deltas)
    (ordered : (start :: steps.map fun step => step.1.monotonic).Pairwise (· ≤ ·))
    (alive : ∀ step ∈ steps, ExpiringMap.Alive step.1.monotonic (content.bind Prod.snd)) :
    (dispatchEach store steps).1 = (sums number deltas).map countReply ∧
      ∀ now, (∀ moment ∈ start :: steps.map fun step => step.1.monotonic, moment ≤ now) →
        ExpiringMap.Alive now (content.bind Prod.snd) →
        ((dispatchEach store steps).2.live now).get? key = counted key content number deltas := by
  induction commands generalizing store content number start with
  | nil =>
      refine ⟨rfl, ?_⟩
      intro now later alive
      exact held_later held (later start (List.mem_cons_self ..)) alive
  | @cons step delta steps deltas adds _ ih =>
      obtain ⟨clock, command⟩ := step
      rw [List.map_cons, List.pairwise_cons] at ordered
      have current := held_later held
        (ordered.1 clock.monotonic (List.mem_cons_self ..)) (alive _ (List.mem_cons_self ..))
      obtain ⟨reply, stays, left⟩ := dispatch_counts unlimited current counts adds
      have after := counts.left key delta
      have replies : sums number (delta :: deltas) =
          (if InInt64 (number + delta) then some (number + delta) else none) ::
            sums ((if InInt64 (number + delta) then some (number + delta) else none).getD number)
              deltas := by
        rw [sums]
        split_ifs <;> rfl
      have deadline : (match (if InInt64 (number + delta) then some (number + delta) else none) with
          | none => content
          | some sum => some (Store.incrementedValue key (content.map Prod.fst) sum,
              content.bind Prod.snd)).bind Prod.snd = content.bind Prod.snd := by
        split_ifs <;> rfl
      obtain ⟨others, final⟩ := ih stays left after ordered.2 (by
        rw [deadline]
        exact fun step member => alive step (List.mem_cons_of_mem _ member))
      rw [deadline] at final
      rw [replies, counted_cons]
      refine ⟨?_, ?_⟩
      · rw [dispatchEach, List.map_cons, reply, others]
      · intro now later alive
        exact final now (fun moment member => later moment (List.mem_cons_of_mem _ member)) alive

/-- On a store without a limit, counter commands answer and leave what a 64-bit counter
does: every sum that fits is returned and stored in decimal form, every other one is
refused and changes nothing, and the deadline stays. -/
theorem counters_exact {start : Time} (unlimited : store.maxmemory = 0)
    (held : (store.live start).get? key = content) (counts : Counts content number)
    (steps : List (Clock × List Arg)) (deltas : List Int)
    (commands : List.Forall₂ (fun step delta => Adds key step.2 delta) steps deltas)
    (ordered : (start :: steps.map fun step => step.1.monotonic).Pairwise (· ≤ ·))
    (alive : ∀ step ∈ steps, ExpiringMap.Alive step.1.monotonic (content.bind Prod.snd)) :
    (dispatchEach store steps).1 = (sums number deltas).map countReply ∧
      ∀ clock : Clock, (∀ moment ∈ start :: steps.map fun step => step.1.monotonic,
          moment ≤ clock.monotonic) →
        ExpiringMap.Alive clock.monotonic (content.bind Prod.snd) →
        let left := (dispatchEach store steps).2
        (left.live clock.monotonic).get? key = counted key content number deltas ∧
          ∀ total, (sums number deltas).reduceOption.getLast? = some total →
            let value := Store.incrementedValue key (content.map Prod.fst) total
            storedInt value = .ok total ∧
              ∀ command, Command.ofCommand command = some .get → command.tail = [key] →
                (dispatch clock left command).1 = .ok (.arg value) := by
  obtain ⟨replies, final⟩ := dispatchEach_counts unlimited held counts commands ordered alive
  refine ⟨replies, ?_⟩
  intro clock later alive
  have left := final clock.monotonic later alive
  refine ⟨left, ?_⟩
  intro total last
  have member := List.mem_of_getLast? last
  rw [List.reduceOption_mem_iff] at member
  refine ⟨(spells_ofText _ (inRange_of_mem_sums member)).storedInt, ?_⟩
  intro command known tail
  rw [counted, last] at left
  obtain ⟨name, dispatched⟩ := dispatch_of_known known clock (dispatchEach store steps).2
  have found : (lookup clock (dispatchEach store steps).2 key).1 =
      some (Store.incrementedValue key (content.map Prod.fst) total) := by
    have result := Store.get_result (dispatchEach store steps).2 clock.monotonic key
    rw [left] at result
    unfold lookup
    simp only [result, Option.map_some]
  rw [dispatched, tail]
  simp only [Command.handler, cmdGet, found]
  rfl

/-- Up by one, then down by an amount with leading zeros. -/
def freshCounting : List (Clock × List Arg) :=
  [(Clock.afterEpoch 2000, [.str "INCR".toList, .str "n".toList]),
    (Clock.afterEpoch 2000, [.str "decrby".toList, .str "n".toList, .str "007".toList])]

theorem counters_exact_fresh :
    (dispatchEach (.init 0 .allkeysLru) freshCounting).1 = [.ok (.int 1), .ok (.int (-6))] := by
  have seven : Decimal "007".toList 7 :=
    @Decimal.unsigned "007".toList ⟨by decide, List.all_eq_true.mp (by decide)⟩ (by decide)
      (by decide)
  have commands : List.Forall₂ (fun step delta => Adds (.str "n".toList) step.2 delta)
      freshCounting [1, -7] :=
    .cons (.inl ⟨by decide +kernel, rfl, rfl⟩)
      (.cons (.inr (.inr (.inr ⟨_, 7, by decide +kernel, rfl, ⟨_, seven, .inr rfl⟩, rfl⟩))) .nil)
  have counted := @counters_exact (.init 0 .allkeysLru) (.str "n".toList) none 0
    (Clock.afterEpoch 2000).monotonic rfl rfl rfl freshCounting [1, -7] commands
    (by simp [freshCounting]) (by simp)
  exact counted.1

end Counting

end MiniCache
