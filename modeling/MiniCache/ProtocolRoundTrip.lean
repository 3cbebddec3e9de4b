import MiniCache.Protocol
import MiniCache.RecordLog

/-!
# Commands survive the trip over the wire

Reading an encoded command gives the command back and leaves what follows it,
and reading any proper, nonempty part of its encoding fails.  Both hold for
every command within the limits of the protocol, whatever bytes its arguments
contain.
-/

namespace MiniCache

open RecordLog (ProperPrefix)

/-- A command within the limits of the protocol. -/
structure Deliverable (command : List Bytes) : Prop where
  count : command.length ≤ MAX_ARRAY_LENGTH
  sizes : ∀ data ∈ command, data.length ≤ MAX_BULK_LENGTH

instance (command : List Bytes) : Decidable (Deliverable command) :=
  decidable_of_iff
    (command.length ≤ MAX_ARRAY_LENGTH ∧ ∀ data ∈ command, data.length ≤ MAX_BULK_LENGTH)
    ⟨fun both => ⟨both.1, both.2⟩, fun within => ⟨within.count, within.sizes⟩⟩

section Lines

theorem take_length_sub_two (line : Bytes) (first second : UInt8) :
    (line ++ [first] ++ [second]).take ((line ++ [first] ++ [second]).length - 2) = line := by
  simp

/-- A line without line feeds is read up to its end. -/
theorem readLine_append {line : Bytes} (noFeed : (10 : UInt8) ∉ line)
    (short : line.length < streamLimit) (rest : Bytes) :
    readLine (line ++ CRLF ++ rest) = .ok (some line, rest) := by
  have inLine : ∀ byte ∈ line ++ [13], decide (byte ≠ (10 : UInt8)) = true := by
    intro byte member
    rcases List.mem_append.mp member with inside | isReturn
    · exact decide_eq_true fun same => noFeed (same ▸ inside)
    · rw [List.mem_singleton.mp isReturn]
      decide
  have split : line ++ CRLF ++ rest = (line ++ [13]) ++ 10 :: rest := by
    simp [CRLF]
  have taken : (line ++ CRLF ++ rest).takeWhile (fun byte => decide (byte ≠ 10)) =
      line ++ [13] := by
    rw [split, List.takeWhile_append_of_pos inLine]
    simp
  have dropped : (line ++ CRLF ++ rest).dropWhile (fun byte => decide (byte ≠ 10)) =
      10 :: rest := by
    rw [split, List.dropWhile_append_of_pos inLine]
    simp
  have within : ¬ streamLimit < (line ++ [13]).length := by
    rw [List.length_append, List.length_singleton]
    omega
  have readWhole : readline (line ++ CRLF ++ rest) = some (line ++ [13] ++ [10], rest) := by
    simp only [readline, taken, dropped, if_neg within]
  have ends : CRLF <:+ line ++ [13] ++ [10] := ⟨line, by simp [CRLF]⟩
  unfold readLine
  rw [readWhole]
  split
  · contradiction
  · rename_i empty
    simp at empty
  · rename_i raw other nonempty same
    obtain ⟨rfl, rfl⟩ := Prod.mk.inj (Option.some.inj same)
    rw [if_pos ends, take_length_sub_two]

theorem readLine_nil : readLine [] = .ok (none, []) := rfl

/-- A line that breaks off is an error. -/
theorem readLine_torn {part : Bytes} (noFeed : (10 : UInt8) ∉ part)
    (nonempty : part ≠ []) : ∃ error, readLine part = .error error := by
  have inPart : ∀ byte ∈ part, decide (byte ≠ (10 : UInt8)) = true :=
    fun byte member => decide_eq_true fun same => noFeed (same ▸ member)
  have taken := List.takeWhile_eq_self_iff.mpr inPart
  have dropped := List.dropWhile_eq_nil_iff.mpr inPart
  have unended : ¬ CRLF <:+ part := by
    intro ends
    exact noFeed (ends.subset (by simp [CRLF]))
  by_cases long : streamLimit < part.length
  · have failed : readline part = none := by
      simp only [readline, taken, dropped, if_pos long]
    exact ⟨_, by rw [readLine, failed]⟩
  · have all : readline part = some (part, []) := by
      simp only [readline, taken, dropped, if_neg long]
    refine ⟨.protocol ("line not CRLF-terminated: ".toList ++ reprBytes part), ?_⟩
    unfold readLine
    rw [all]
    split
    · contradiction
    · rename_i empty
      exact absurd (Prod.mk.inj (Option.some.inj empty)).1 nonempty
    · rename_i raw other _ same
      obtain ⟨rfl, rfl⟩ := Prod.mk.inj (Option.some.inj same)
      rw [if_neg unended]

/-- A part of a line with its end contains no line feed. -/
theorem feed_not_mem_of_torn {line part : Bytes} (noFeed : (10 : UInt8) ∉ line)
    (torn : ProperPrefix part (line ++ CRLF)) : (10 : UInt8) ∉ part := by
  have split : line ++ CRLF = (line ++ [13]) ++ [10] := by simp [CRLF]
  rw [split] at torn
  rcases List.prefix_concat_iff.mp torn.1 with whole | inside
  · exact absurd whole torn.2
  · intro member
    rcases List.mem_append.mp (inside.subset member) with inLine | isReturn
    · exact noFeed inLine
    · exact absurd (List.mem_singleton.mp isReturn) (by decide)

end Lines

section Lengths

theorem length_intText_le {number : Int} {bound : Nat} (small : number.natAbs < 10 ^ bound)
    (positive : 0 < bound) : (intText number).length ≤ bound + 1 := by
  have digits : (Nat.toDigits 10 number.natAbs).length ≤ bound :=
    (Nat.length_toDigits_le_iff (by decide) positive).mpr small
  unfold intText
  split_ifs
  · exact Nat.succ_le_succ digits
  · exact digits.trans (Nat.le_succ _)

theorem length_encodeUtf8_intText (number : Int) :
    (encodeUtf8 (intText number)).length = (intText number).length := by
  rw [encodeUtf8_of_isAscii (intText_isAscii number), List.length_map]

theorem mem_intBytes {number : Nat} {byte : UInt8} (member : byte ∈ intBytes number) :
    48 ≤ byte.toNat ∧ byte.toNat ≤ 57 := by
  have notNegative : ¬ ((number : Int) < 0) := by omega
  rw [intBytes, encodeUtf8_of_isAscii (intText_isAscii _), intText, if_neg notNegative]
    at member
  obtain ⟨char, digit, rfl⟩ := List.mem_map.mp member
  have bounds := toNat_of_isDigit (isDigit_of_mem_toDigits digit)
  rw [ofNat_toNat_of_lt (by omega)]
  exact bounds

/-- The line that announces a length. -/
theorem lengthLine {mark : UInt8} (markNe : mark ≠ 10) {number : Nat}
    (small : number < 10 ^ 9) :
    (10 : UInt8) ∉ mark :: intBytes number ∧
      (mark :: intBytes number).length < streamLimit := by
  constructor
  · intro member
    rcases List.mem_cons.mp member with isMark | inDigits
    · exact markNe isMark.symm
    · have bounds := mem_intBytes inDigits
      exact absurd bounds.1 (by decide)
  · have short := @length_intText_le number _ small (by decide)
    rw [List.length_cons, intBytes, length_encodeUtf8_intText]
    exact lt_of_le_of_lt (Nat.succ_le_succ short) (by decide)

theorem parseLength_intBytes {number : Nat} (small : number < 10 ^ 9) (what : Text) :
    parseLength (intBytes number) what = .ok (number : Int) := by
  have digits : ((number : Int)).natAbs < 10 ^ maxStrDigits := by
    rw [Int.natAbs_natCast]
    exact small.trans (Nat.pow_lt_pow_right (by decide) (by decide))
  rw [parseLength, intBytes, intOfBytes_intText digits]

theorem bulk_small {data : Bytes} (within : data.length ≤ MAX_BULK_LENGTH) :
    data.length < 10 ^ 9 :=
  lt_of_le_of_lt within (by decide)

theorem checkBulkLength_ok {data : Bytes} (within : data.length ≤ MAX_BULK_LENGTH) :
    checkBulkLength data.length = .ok () := by
  rw [checkBulkLength, if_neg]
  intro outside
  omega

end Lengths

section Bulks

variable {data : Bytes}

theorem readexactly_append (data rest : Bytes) :
    readexactly data.length (data ++ rest) = .ok (data, rest) := by
  simp [readexactly]

theorem readexactly_torn {part : Bytes} {count : Nat} (short : part.length < count) :
    readexactly count part = .error .incomplete := by
  rw [readexactly, if_pos short]

/-- The header of a bulk string, before its data. -/
theorem readBulkString_header (within : data.length ≤ MAX_BULK_LENGTH) (input : Bytes) :
    readBulkString (36 :: intBytes data.length ++ CRLF ++ input) =
      (do
        let (data, input) ← readexactly data.length input
        let (trailer, input) ← readexactly 2 input
        if trailer = CRLF then .ok (data, input)
        else .error (.protocol "bulk string missing trailing CRLF".toList)) := by
  obtain ⟨noFeed, short⟩ := @lengthLine 36 (by decide) _ (bulk_small within)
  have notNull : ¬ ((data.length : Int) = -1) := by omega
  unfold readBulkString
  rw [readLine_append noFeed short]
  simp only [bind, Except.bind, parseLength_intBytes (bulk_small within),
    checkBulkLength_ok within, if_neg notNull, Int.toNat_natCast]

theorem readBulkString_append (within : data.length ≤ MAX_BULK_LENGTH) (rest : Bytes) :
    readBulkString (encodeBulk data ++ rest) = .ok (data, rest) := by
  have shape : encodeBulk data ++ rest =
      36 :: intBytes data.length ++ CRLF ++ (data ++ (CRLF ++ rest)) := by
    simp [encodeBulk]
  rw [shape, readBulkString_header within, readexactly_append]
  have trailer : readexactly 2 (CRLF ++ rest) = .ok (CRLF, rest) :=
    readexactly_append CRLF rest
  simp only [bind, Except.bind, trailer, if_true]

/-- A bulk string that breaks off is an error. -/
theorem readBulkString_torn (within : data.length ≤ MAX_BULK_LENGTH) {part : Bytes}
    (torn : ProperPrefix part (encodeBulk data)) :
    ∃ error, readBulkString part = .error error := by
  obtain ⟨noFeed, -⟩ := @lengthLine 36 (by decide) _ (bulk_small within)
  have shape : encodeBulk data =
      (36 :: intBytes data.length ++ CRLF) ++ (data ++ CRLF) := by
    simp [encodeBulk]
  rw [shape] at torn
  rcases torn.append_cases with inHeader | ⟨tail, rfl, inData⟩
  · by_cases empty : part = []
    · subst empty
      exact ⟨_, rfl⟩
    · obtain ⟨error, failed⟩ :=
        readLine_torn (feed_not_mem_of_torn noFeed inHeader) empty
      exact ⟨error, by rw [readBulkString, failed]; rfl⟩
  · rw [readBulkString_header within]
    rcases inData.append_cases with tornData | ⟨trailer, rfl, tornTrailer⟩
    · rw [readexactly_torn tornData.length_lt]
      exact ⟨_, rfl⟩
    · rw [readexactly_append]
      have short : trailer.length < 2 := tornTrailer.length_lt
      simp only [bind, Except.bind, readexactly_torn short]
      exact ⟨_, rfl⟩

variable {command : List Bytes}

theorem readBulkStrings_append
    (within : ∀ data ∈ command, data.length ≤ MAX_BULK_LENGTH) (rest : Bytes) :
    readBulkStrings command.length (command.flatMap encodeBulk ++ rest) =
      .ok (command, rest) := by
  induction command with
  | nil => rfl
  | cons data others ih =>
      rw [List.flatMap_cons, List.append_assoc, List.length_cons, readBulkStrings,
        readBulkString_append (within data (List.mem_cons_self ..))]
      simp only [bind, Except.bind,
        ih fun other member => within other (List.mem_cons_of_mem _ member)]

theorem readBulkStrings_torn
    (within : ∀ data ∈ command, data.length ≤ MAX_BULK_LENGTH) {part : Bytes}
    (torn : ProperPrefix part (command.flatMap encodeBulk)) :
    ∃ error, readBulkStrings command.length part = .error error := by
  induction command generalizing part with
  | nil =>
      have shorter := torn.length_lt
      simp at shorter
  | cons data others ih =>
      have first := within data (List.mem_cons_self ..)
      rw [List.flatMap_cons] at torn
      rw [List.length_cons, readBulkStrings]
      rcases torn.append_cases with inFirst | ⟨tail, rfl, inOthers⟩
      · obtain ⟨error, failed⟩ := readBulkString_torn first inFirst
        exact ⟨error, by rw [failed]; rfl⟩
      · obtain ⟨error, failed⟩ :=
          ih (fun other member => within other (List.mem_cons_of_mem _ member)) inOthers
        refine ⟨error, ?_⟩
        rw [readBulkString_append first]
        simp only [bind, Except.bind, failed]

end Bulks

section Commands

theorem encode_arg (arg : Arg) : encode (.arg arg) = encodeBulk arg.wire := by
  cases arg <;> rfl

/-- An encoded command announces its length and lists its arguments. -/
theorem encodeCommand_eq (command : List Arg) :
    encodeCommand command =
      (42 :: intBytes command.length ++ CRLF) ++
        (command.map Arg.wire).flatMap encodeBulk := by
  have all : encodeAll (command.map .arg) =
      (command.map Arg.wire).flatMap encodeBulk := by
    induction command with
    | nil => rfl
    | cons arg rest ih =>
        rw [List.map_cons, encodeAll, encode_arg, ih, List.map_cons, List.flatMap_cons]
  rw [encodeCommand, encode, all, List.length_map]

variable {command : List Arg}

theorem array_small {count : Nat} (within : count ≤ MAX_ARRAY_LENGTH) : count < 10 ^ 9 :=
  lt_of_le_of_lt within (by decide)

/-- The header of a command, before its arguments. -/
theorem readCommand_header {count : Nat} (within : count ≤ MAX_ARRAY_LENGTH)
    (input : Bytes) :
    readCommand (42 :: intBytes count ++ CRLF ++ input) =
      (do
        let (args, input) ← readBulkStrings count input
        .ok (some args, input)) := by
  obtain ⟨noFeed, short⟩ := @lengthLine 42 (by decide) _ (array_small within)
  have notNegative : ¬ ((count : Int) < 0) := by omega
  have notTooLarge : ¬ ((MAX_ARRAY_LENGTH : Int) < count) := by omega
  unfold readCommand
  rw [readLine_append noFeed short]
  simp only [bind, Except.bind, parseLength_intBytes (array_small within),
    if_neg notNegative, if_neg notTooLarge, Int.toNat_natCast]

/-- Reading an encoded command gives it back and leaves what follows. -/
theorem readCommand_append (deliverable : Deliverable (command.map Arg.wire))
    (rest : Bytes) :
    readCommand (encodeCommand command ++ rest) =
      .ok (some (command.map Arg.wire), rest) := by
  have count : command.length ≤ MAX_ARRAY_LENGTH := by
    simpa using deliverable.count
  have bulks := readBulkStrings_append deliverable.sizes rest
  rw [List.length_map] at bulks
  rw [encodeCommand_eq, List.append_assoc, readCommand_header count]
  simp only [bind, Except.bind, bulks]

/-- Reading a part of an encoded command fails. -/
theorem readCommand_torn (deliverable : Deliverable (command.map Arg.wire))
    {part : Bytes} (nonempty : part ≠ [])
    (torn : ProperPrefix part (encodeCommand command)) :
    ∃ error, readCommand part = .error error := by
  have count : command.length ≤ MAX_ARRAY_LENGTH := by
    simpa using deliverable.count
  obtain ⟨noFeed, -⟩ := @lengthLine 42 (by decide) _ (array_small count)
  rw [encodeCommand_eq] at torn
  rcases torn.append_cases with inHeader | ⟨tail, rfl, inArguments⟩
  · obtain ⟨error, failed⟩ :=
      readLine_torn (feed_not_mem_of_torn noFeed inHeader) nonempty
    exact ⟨error, by rw [readCommand, failed]; rfl⟩
  · obtain ⟨error, failed⟩ := readBulkStrings_torn deliverable.sizes inArguments
    rw [List.length_map] at failed
    refine ⟨error, ?_⟩
    rw [readCommand_header count]
    simp only [bind, Except.bind, failed]

end Commands

section Sequences

variable {α β : Type}

/-- A reader that inverts an encoding reads a sequence of encodings back. -/
theorem readMany_append {read : Bytes → Except ReadError (α × Bytes)} {emit : β → Bytes}
    {view : β → α} {items : List β}
    (inverts : ∀ item ∈ items, ∀ rest, read (emit item ++ rest) = .ok (view item, rest))
    (rest : Bytes) :
    readMany read items.length (items.flatMap emit ++ rest) = .ok (items.map view, rest) := by
  induction items with
  | nil => rfl
  | cons item items ih =>
      rw [List.flatMap_cons, List.append_assoc, List.length_cons, readMany,
        inverts item (List.mem_cons_self ..)]
      simp only [bind, Except.bind,
        ih fun other member => inverts other (List.mem_cons_of_mem _ member), List.map_cons]

/-- Encodings that a reader inverts cannot run into each other. -/
theorem map_eq_of_flatMap_eq {read : Bytes → Except ReadError (α × Bytes)} {emit : β → Bytes}
    {view : β → α} {items others : List β}
    (inverts : ∀ item, item ∈ items ∨ item ∈ others →
      emit item ≠ [] ∧ ∀ rest, read (emit item ++ rest) = .ok (view item, rest))
    (same : items.flatMap emit = others.flatMap emit) : items.map view = others.map view := by
  induction items generalizing others with
  | nil =>
      cases others with
      | nil => rfl
      | cons other others =>
          have empty : emit other = [] := by
            rw [List.flatMap_nil, List.flatMap_cons] at same
            exact (List.append_eq_nil_iff.mp same.symm).1
          exact absurd empty (inverts other (Or.inr (List.mem_cons_self ..))).1
  | cons item items ih =>
      have first := inverts item (Or.inl (List.mem_cons_self ..))
      cases others with
      | nil =>
          rw [List.flatMap_nil, List.flatMap_cons] at same
          exact absurd (List.append_eq_nil_iff.mp same).1 first.1
      | cons other others =>
          have second := inverts other (Or.inr (List.mem_cons_self ..))
          rw [List.flatMap_cons, List.flatMap_cons] at same
          have agree := first.2 (items.flatMap emit)
          rw [same, second.2] at agree
          obtain ⟨viewEq, restEq⟩ := Prod.mk.inj (Except.ok.inj agree)
          rw [List.map_cons, List.map_cons, viewEq, ih ?_ restEq.symm]
          rintro member (inItems | inOthers)
          · exact inverts member (Or.inl (List.mem_cons_of_mem _ inItems))
          · exact inverts member (Or.inr (List.mem_cons_of_mem _ inOthers))

theorem encodeCommand_ne_nil (command : List Arg) : encodeCommand command ≠ [] := by
  rw [encodeCommand_eq]
  simp

/-- Reading the encodings of commands gives them back in order and leaves what
follows, so that different sequences of commands have different encodings. -/
theorem commands_round_trip {commands : List (List Arg)}
    (within : ∀ command ∈ commands, Deliverable (command.map Arg.wire)) :
    (∀ rest, readMany readCommand commands.length (commands.flatMap encodeCommand ++ rest) =
        .ok (commands.map fun command => some (command.map Arg.wire), rest)) ∧
      ∀ others : List (List Arg), (∀ other ∈ others, Deliverable (other.map Arg.wire)) →
        others.flatMap encodeCommand = commands.flatMap encodeCommand →
          others.map (List.map Arg.wire) = commands.map (List.map Arg.wire) := by
  constructor
  · exact readMany_append fun command member => readCommand_append (within command member)
  · intro others otherWithin same
    have inverts : ∀ command, command ∈ others ∨ command ∈ commands →
        encodeCommand command ≠ [] ∧ ∀ rest, readCommand (encodeCommand command ++ rest) =
          .ok (some (command.map Arg.wire), rest) := by
      rintro command (inOthers | inCommands)
      · exact ⟨encodeCommand_ne_nil command, readCommand_append (otherWithin command inOthers)⟩
      · exact ⟨encodeCommand_ne_nil command, readCommand_append (within command inCommands)⟩
    have views := map_eq_of_flatMap_eq inverts same
    apply List.map_injective_iff.mpr (Option.some_injective (List Bytes))
    rw [List.map_map, List.map_map]
    exact views

/-- An empty command, an empty argument, and arguments that look like headers. -/
def lookalikeCommands : List (List Arg) :=
  [[], [.bytes []], [.bytes [42, 49, 13, 10], .str "$-1\r\n".toList]]

theorem commands_round_trip_lookalikes :
    readMany readCommand 3 (lookalikeCommands.flatMap encodeCommand ++ [36]) =
      .ok (lookalikeCommands.map fun command => some (command.map Arg.wire), [36]) :=
  (@commands_round_trip lookalikeCommands (by decide)).1 [36]

end Sequences

end MiniCache
