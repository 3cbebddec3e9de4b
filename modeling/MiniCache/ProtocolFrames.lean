import MiniCache.ProtocolRoundTrip
import Mathlib.Algebra.BigOperators.Group.List.Basic
import Mathlib.Tactic.Ring

/-!
# The frames that a reader of commands accepts

Besides the form in which the program writes a command, `read_command` accepts
inline lines, negative array lengths, null bulk strings and any spelling of a
length that `int` takes.  A frame records which form was used.  The reader
accepts exactly the frames, and the number of bytes by which a frame is longer
than the encoding of its command is a sum over its spellings.
-/

namespace MiniCache

/-- A bulk string with the spelling of its length; the null one has no data. -/
inductive BulkFrame
  | full (spelling data : Bytes)
  | null (spelling : Bytes)
deriving DecidableEq

/-- A command as it stands in a stream. -/
inductive Frame
  | inline (line : Bytes)
  | negative (spelling : Bytes)
  | array (spelling : Bytes) (bulks : List BulkFrame)
deriving DecidableEq

/-- A line that the reader takes whole. -/
def LineOk (line : Bytes) : Prop := (10 : UInt8) ∉ line ∧ line.length < streamLimit

namespace BulkFrame

def bytes : BulkFrame → Bytes
  | .full spelling data => 36 :: spelling ++ CRLF ++ data ++ CRLF
  | .null spelling => 36 :: spelling ++ CRLF

def value : BulkFrame → Bytes
  | .full _ data => data
  | .null _ => []

def Valid : BulkFrame → Prop
  | .full spelling data =>
      LineOk (36 :: spelling) ∧ intOfBytes spelling = some (data.length : Int) ∧
        data.length ≤ MAX_BULK_LENGTH
  | .null spelling => LineOk (36 :: spelling) ∧ intOfBytes spelling = some (-1)

/-- The bytes a bulk string takes beyond its encoding. -/
def excess : BulkFrame → Int
  | .full spelling data => spelling.length - (intBytes data.length).length
  | .null spelling => spelling.length - 3

end BulkFrame

namespace Frame

def bytes : Frame → Bytes
  | .inline line => line ++ CRLF
  | .negative spelling => 42 :: spelling ++ CRLF
  | .array spelling bulks => 42 :: spelling ++ CRLF ++ bulks.flatMap BulkFrame.bytes

def command : Frame → List Bytes
  | .inline line => splitLine line
  | .negative _ => []
  | .array _ bulks => bulks.map BulkFrame.value

def Valid : Frame → Prop
  | .inline line => LineOk line ∧ line.head? ≠ some 42
  | .negative spelling =>
      LineOk (42 :: spelling) ∧ ∃ number < 0, intOfBytes spelling = some number
  | .array spelling bulks =>
      LineOk (42 :: spelling) ∧ intOfBytes spelling = some (bulks.length : Int) ∧
        bulks.length ≤ MAX_ARRAY_LENGTH ∧ ∀ bulk ∈ bulks, bulk.Valid

/-- The bytes that the encoding of a word adds to the word. -/
def wordOverhead (word : Bytes) : Int := 5 + (intBytes word.length).length + word.length

/-- The bytes a frame takes beyond the encoding of its command. -/
def excess : Frame → Int
  | .inline line =>
      line.length - 1 - (intBytes (splitLine line).length).length -
        ((splitLine line).map wordOverhead).sum
  | .negative spelling => spelling.length - 1
  | .array spelling bulks =>
      spelling.length - (intBytes bulks.length).length + (bulks.map BulkFrame.excess).sum

end Frame

section Lines

theorem readline_eq_some {input raw rest : Bytes}
    (done : readline input = some (raw, rest)) :
    input = raw ++ rest ∧
      ((10 : UInt8) ∉ raw ∨
        ∃ line, raw = line ++ [10] ∧ (10 : UInt8) ∉ line ∧ line.length ≤ streamLimit) := by
  have parts : input.takeWhile (fun byte => decide (byte ≠ (10 : UInt8))) ++
      input.dropWhile (fun byte => decide (byte ≠ (10 : UInt8))) = input :=
    List.takeWhile_append_dropWhile
  have noFeed : (10 : UInt8) ∉ input.takeWhile (fun byte => decide (byte ≠ (10 : UInt8))) := by
    intro member
    have isNot := List.mem_takeWhile_imp member
    simp at isNot
  unfold readline at done
  dsimp only at done
  split at done
  · rename_i noRest
    split_ifs at done
    obtain ⟨rfl, rfl⟩ := Prod.mk.inj (Option.some.inj done)
    rw [noRest] at parts
    exact ⟨parts.symm, Or.inl noFeed⟩
  · rename_i feed left foundFeed
    split_ifs at done with long
    obtain ⟨rfl, rfl⟩ := Prod.mk.inj (Option.some.inj done)
    have isFeed : feed = 10 := by
      have first := List.head?_dropWhile_not
        (fun byte => decide (byte ≠ (10 : UInt8))) input
      rw [foundFeed] at first
      simpa using first
    subst isFeed
    rw [foundFeed] at parts
    exact ⟨by rw [List.append_assoc, List.singleton_append, parts],
      Or.inr ⟨_, rfl, noFeed, Nat.le_of_not_lt long⟩⟩

/-- The lines that are read whole. -/
theorem readLine_eq_some_iff {input line rest : Bytes} :
    readLine input = .ok (some line, rest) ↔
      input = line ++ CRLF ++ rest ∧ LineOk line := by
  constructor
  · intro done
    unfold readLine at done
    split at done
    · cases done
    · cases done
    · rename_i raw left nonempty found
      split_ifs at done with ends
      obtain ⟨pre, rfl⟩ := ends
      obtain ⟨split, shape⟩ := readline_eq_some found
      have lineEq : line = pre := by
        have taken : (pre ++ CRLF).take ((pre ++ CRLF).length - 2) = pre := by
          simp [CRLF]
        rw [taken] at done
        exact (Option.some.inj (congrArg Prod.fst (Except.ok.inj done))).symm
      have restEq : rest = left := (congrArg Prod.snd (Except.ok.inj done)).symm
      subst lineEq restEq
      refine ⟨split, ?_⟩
      rcases shape with noFeed | ⟨whole, same, noFeed, short⟩
      · exact absurd (by simp [CRLF]) noFeed
      · have wholeEq : whole = line ++ [13] := by
          have ends : (line ++ [13]) ++ [10] = whole ++ [10] := by
            rw [← same]
            simp [CRLF]
          exact (List.append_cancel_right ends).symm
        subst wholeEq
        rw [List.length_append, List.length_singleton] at short
        exact ⟨fun member => noFeed (List.mem_append_left _ member), short⟩
  · rintro ⟨rfl, noFeed, short⟩
    exact readLine_append noFeed short rest

end Lines

section Accepts

theorem parseLength_eq_ok {data : Bytes} {what : Text} {number : Int} :
    parseLength data what = .ok number ↔ intOfBytes data = some number := by
  unfold parseLength
  cases intOfBytes data <;> simp

theorem checkBulkLength_eq_ok {length : Int} :
    checkBulkLength length = .ok () ↔ -1 ≤ length ∧ length ≤ MAX_BULK_LENGTH := by
  unfold checkBulkLength
  split_ifs with outside
  · simp only [false_iff]
    omega
  · simp only [true_iff]
    omega

theorem readexactly_eq_ok {count : Nat} {input data rest : Bytes} :
    readexactly count input = .ok (data, rest) ↔
      input = data ++ rest ∧ data.length = count := by
  unfold readexactly
  split_ifs with short
  · simp only [false_iff]
    rintro ⟨rfl, rfl⟩
    rw [List.length_append] at short
    omega
  · constructor
    · intro done
      obtain ⟨rfl, rfl⟩ := Prod.mk.inj (Except.ok.inj done)
      exact ⟨(List.take_append_drop count input).symm,
        List.length_take_of_le (Nat.le_of_not_lt short)⟩
    · rintro ⟨rfl, rfl⟩
      simp

/-- The data and the end of a bulk string, after its header. -/
theorem readBulkString_data {spelling data rest : Bytes}
    (valid : (BulkFrame.full spelling data).Valid) :
    readBulkString ((BulkFrame.full spelling data).bytes ++ rest) = .ok (data, rest) := by
  obtain ⟨⟨noFeed, short⟩, spelled, within⟩ := valid
  have shape : (BulkFrame.full spelling data).bytes ++ rest =
      (36 :: spelling) ++ CRLF ++ (data ++ (CRLF ++ rest)) := by
    simp [BulkFrame.bytes]
  have notNull : ¬ ((data.length : Int) = -1) := by omega
  have trailer : readexactly 2 (CRLF ++ rest) = .ok (CRLF, rest) :=
    readexactly_append CRLF rest
  unfold readBulkString
  rw [shape, readLine_append noFeed short]
  simp only [bind, Except.bind, parseLength_eq_ok.mpr spelled,
    checkBulkLength_ok within, if_neg notNull, Int.toNat_natCast,
    readexactly_append, trailer, if_true]

theorem readBulkString_null {spelling rest : Bytes}
    (valid : (BulkFrame.null spelling).Valid) :
    readBulkString ((BulkFrame.null spelling).bytes ++ rest) = .ok ([], rest) := by
  obtain ⟨⟨noFeed, short⟩, spelled⟩ := valid
  unfold readBulkString
  rw [BulkFrame.bytes, readLine_append noFeed short]
  simp only [bind, Except.bind, parseLength_eq_ok.mpr spelled]
  rfl

theorem Except.bind_eq_ok {ε α β : Type} {first : Except ε α} {next : α → Except ε β}
    {result : β} (done : (first >>= next) = .ok result) :
    ∃ middle, first = .ok middle ∧ next middle = .ok result := by
  cases first with
  | error error => cases done
  | ok middle => exact ⟨middle, rfl, done⟩

/-- The bulk strings that are read are the valid frames. -/
theorem readBulkString_eq_ok_iff {input value rest : Bytes} :
    readBulkString input = .ok (value, rest) ↔
      ∃ bulk : BulkFrame, bulk.Valid ∧ bulk.value = value ∧
        input = bulk.bytes ++ rest := by
  constructor
  · intro done
    obtain ⟨⟨line, afterLine⟩, first, done⟩ := Except.bind_eq_ok done
    dsimp only at done
    split at done
    · cases done
    · rename_i spelling
      obtain ⟨inputEq, lineOk⟩ := readLine_eq_some_iff.mp first
      obtain ⟨length, parsed, done⟩ := Except.bind_eq_ok done
      obtain ⟨_, checked, done⟩ := Except.bind_eq_ok done
      have spelled := parseLength_eq_ok.mp parsed
      obtain ⟨lower, upper⟩ := checkBulkLength_eq_ok.mp checked
      split_ifs at done with isNull
      · obtain ⟨rfl, rfl⟩ := Prod.mk.inj (Except.ok.inj done)
        exact ⟨.null spelling, ⟨lineOk, isNull ▸ spelled⟩, rfl, inputEq⟩
      · obtain ⟨⟨data, afterData⟩, taken, done⟩ := Except.bind_eq_ok done
        obtain ⟨⟨trailer, afterEnd⟩, ended, done⟩ := Except.bind_eq_ok done
        dsimp only at done ended
        split_ifs at done with isEnd
        obtain ⟨rfl, rfl⟩ := Prod.mk.inj (Except.ok.inj done)
        obtain ⟨rfl, dataLength⟩ := readexactly_eq_ok.mp taken
        obtain ⟨rfl, -⟩ := readexactly_eq_ok.mp ended
        have lengthEq : length = (data.length : Int) := by omega
        refine ⟨.full spelling data, ⟨lineOk, lengthEq ▸ spelled, by omega⟩, rfl, ?_⟩
        rw [inputEq, isEnd]
        simp [BulkFrame.bytes]
    · cases done
  · rintro ⟨bulk, valid, rfl, rfl⟩
    cases bulk with
    | null spelling => exact readBulkString_null valid
    | full spelling data => exact readBulkString_data valid

theorem readBulkStrings_eq_ok_iff {count : Nat} {input rest : Bytes}
    {values : List Bytes} :
    readBulkStrings count input = .ok (values, rest) ↔
      ∃ bulks : List BulkFrame, bulks.length = count ∧ (∀ bulk ∈ bulks, bulk.Valid) ∧
        bulks.map BulkFrame.value = values ∧
        input = bulks.flatMap BulkFrame.bytes ++ rest := by
  induction count generalizing input values with
  | zero =>
      rw [readBulkStrings]
      constructor
      · intro done
        obtain ⟨rfl, rfl⟩ := Prod.mk.inj (Except.ok.inj done)
        exact ⟨[], rfl, by simp, rfl, rfl⟩
      · rintro ⟨bulks, isEmpty, -, rfl, rfl⟩
        rw [List.eq_nil_of_length_eq_zero isEmpty]
        rfl
  | succ count ih =>
      rw [readBulkStrings]
      constructor
      · intro done
        obtain ⟨⟨value, afterFirst⟩, first, done⟩ := Except.bind_eq_ok done
        obtain ⟨⟨others, afterOthers⟩, second, done⟩ := Except.bind_eq_ok done
        obtain ⟨rfl, rfl⟩ := Prod.mk.inj (Except.ok.inj done)
        obtain ⟨bulk, valid, rfl, rfl⟩ := readBulkString_eq_ok_iff.mp first
        obtain ⟨bulks, rfl, allValid, rfl, rfl⟩ := ih.mp second
        exact ⟨bulk :: bulks, rfl, by simpa using ⟨valid, allValid⟩, rfl, by simp⟩
      · rintro ⟨bulks, lengthEq, allValid, rfl, rfl⟩
        cases bulks with
        | nil => cases lengthEq
        | cons bulk bulks =>
            have first : readBulkString (bulk.bytes ++ (bulks.flatMap BulkFrame.bytes ++ rest)) =
                .ok (bulk.value, bulks.flatMap BulkFrame.bytes ++ rest) :=
              readBulkString_eq_ok_iff.mpr
                ⟨bulk, allValid bulk (List.mem_cons_self ..), rfl, rfl⟩
            have others : readBulkStrings count (bulks.flatMap BulkFrame.bytes ++ rest) =
                .ok (bulks.map BulkFrame.value, rest) :=
              ih.mpr ⟨bulks, Nat.succ.inj lengthEq,
                fun other member => allValid other (List.mem_cons_of_mem _ member), rfl, rfl⟩
            rw [List.flatMap_cons, List.append_assoc, first]
            simp only [bind, Except.bind, others, List.map_cons]

theorem readCommand_inline {line rest : Bytes} (valid : (Frame.inline line).Valid) :
    readCommand (line ++ CRLF ++ rest) = .ok (some (splitLine line), rest) := by
  obtain ⟨⟨noFeed, short⟩, notArray⟩ := valid
  unfold readCommand
  rw [readLine_append noFeed short]
  simp only [bind, Except.bind]
  split
  · contradiction
  · rename_i isArray
    obtain rfl := Option.some.inj isArray
    exact absurd rfl notArray
  · rename_i same
    obtain rfl := Option.some.inj same
    rfl

theorem readCommand_negative {spelling rest : Bytes}
    (valid : (Frame.negative spelling).Valid) :
    readCommand (42 :: spelling ++ CRLF ++ rest) = .ok (some [], rest) := by
  obtain ⟨⟨noFeed, short⟩, number, negative, spelled⟩ := valid
  unfold readCommand
  rw [readLine_append noFeed short]
  simp only [bind, Except.bind, parseLength_eq_ok.mpr spelled, if_pos negative]

theorem readCommand_array {spelling rest : Bytes} {bulks : List BulkFrame}
    (valid : (Frame.array spelling bulks).Valid) :
    readCommand ((Frame.array spelling bulks).bytes ++ rest) =
      .ok (some (bulks.map BulkFrame.value), rest) := by
  obtain ⟨⟨noFeed, short⟩, spelled, within, allValid⟩ := valid
  have notNegative : ¬ ((bulks.length : Int) < 0) := by omega
  have notLarge : ¬ ((MAX_ARRAY_LENGTH : Int) < bulks.length) := by omega
  have others : readBulkStrings bulks.length (bulks.flatMap BulkFrame.bytes ++ rest) =
      .ok (bulks.map BulkFrame.value, rest) :=
    readBulkStrings_eq_ok_iff.mpr ⟨bulks, rfl, allValid, rfl, rfl⟩
  unfold readCommand
  rw [Frame.bytes, List.append_assoc, readLine_append noFeed short]
  simp only [bind, Except.bind, parseLength_eq_ok.mpr spelled, if_neg notNegative,
    if_neg notLarge, Int.toNat_natCast, others]

/-- The commands that are read are those of the valid frames. -/
theorem readCommand_eq_some_iff {input rest : Bytes} {command : List Bytes} :
    readCommand input = .ok (some command, rest) ↔
      ∃ frame : Frame, frame.Valid ∧ frame.command = command ∧
        input = frame.bytes ++ rest := by
  constructor
  · intro done
    obtain ⟨⟨line, afterLine⟩, first, done⟩ := Except.bind_eq_ok done
    dsimp only at done
    split at done
    · cases done
    · rename_i spelling
      obtain ⟨inputEq, lineOk⟩ := readLine_eq_some_iff.mp first
      obtain ⟨number, parsed, done⟩ := Except.bind_eq_ok done
      have spelled := parseLength_eq_ok.mp parsed
      split_ifs at done with negative large
      · obtain ⟨sameCommand, rfl⟩ := Prod.mk.inj (Except.ok.inj done)
        obtain rfl := Option.some.inj sameCommand
        exact ⟨.negative spelling, ⟨lineOk, number, negative, spelled⟩, rfl, inputEq⟩
      · obtain ⟨⟨values, afterBulks⟩, taken, done⟩ := Except.bind_eq_ok done
        obtain ⟨sameCommand, rfl⟩ := Prod.mk.inj (Except.ok.inj done)
        obtain rfl := Option.some.inj sameCommand
        obtain ⟨bulks, count, allValid, rfl, rfl⟩ := readBulkStrings_eq_ok_iff.mp taken
        have numberEq : number = (bulks.length : Int) := by omega
        refine ⟨.array spelling bulks,
          ⟨lineOk, numberEq ▸ spelled, by omega, allValid⟩, rfl, ?_⟩
        rw [inputEq]
        simp [Frame.bytes]
    · rename_i line notArray
      obtain ⟨inputEq, lineOk⟩ := readLine_eq_some_iff.mp first
      obtain ⟨sameCommand, rfl⟩ := Prod.mk.inj (Except.ok.inj done)
      obtain rfl := Option.some.inj sameCommand
      refine ⟨.inline line, ⟨lineOk, ?_⟩, rfl, inputEq⟩
      cases line with
      | nil => simp
      | cons byte line =>
          intro isArray
          obtain rfl : byte = 42 := by simpa using isArray
          exact notArray line rfl
  · rintro ⟨frame, valid, rfl, rfl⟩
    cases frame with
    | inline line => exact readCommand_inline valid
    | negative spelling => exact readCommand_negative valid
    | array spelling bulks => exact readCommand_array valid

theorem Frame.two_le_length (frame : Frame) : 2 ≤ frame.bytes.length := by
  cases frame <;> (simp [Frame.bytes, CRLF]; try omega)

theorem readCommand_shorter {input rest : Bytes} {command : List Bytes}
    (done : readCommand input = .ok (some command, rest)) : rest.length < input.length := by
  obtain ⟨frame, -, -, rfl⟩ := readCommand_eq_some_iff.mp done
  have long := frame.two_le_length
  rw [List.length_append]
  omega

end Accepts

section Excess

theorem length_encodeBulk (data : Bytes) :
    ((encodeBulk data).length : Int) =
      5 + (intBytes data.length).length + data.length := by
  simp only [encodeBulk, CRLF, List.length_append, List.length_cons, List.length_nil]
  push_cast
  ring

theorem length_encodeCommand (command : List Arg) :
    ((encodeCommand command).length : Int) =
      3 + (intBytes command.length).length +
        ((command.map Arg.wire).map Frame.wordOverhead).sum := by
  have bulks (values : List Bytes) : ((values.flatMap encodeBulk).length : Int) =
      (values.map Frame.wordOverhead).sum := by
    induction values with
    | nil => rfl
    | cons value rest ih =>
        rw [List.flatMap_cons, List.length_append, List.map_cons, List.sum_cons, ← ih,
          Nat.cast_add, length_encodeBulk, Frame.wordOverhead]
  rw [encodeCommand_eq, List.length_append, Nat.cast_add, bulks]
  simp only [CRLF, List.length_append, List.length_cons, List.length_nil]
  push_cast
  ring

theorem BulkFrame.length_bytes (bulk : BulkFrame) :
    (bulk.bytes.length : Int) = Frame.wordOverhead bulk.value + bulk.excess := by
  cases bulk with
  | full spelling data =>
      simp only [bytes, value, excess, Frame.wordOverhead, CRLF, List.length_append,
        List.length_cons, List.length_nil]
      push_cast
      ring
  | null spelling =>
      have zeroDigits : (intBytes 0).length = 1 := by decide
      simp only [bytes, value, excess, Frame.wordOverhead, CRLF,
        List.length_append, List.length_cons, List.length_nil]
      push_cast
      rw [zeroDigits]
      ring

theorem map_wire_received (command : List Bytes) :
    (command.map Arg.bytes).map Arg.wire = command := by
  rw [List.map_map]
  exact List.map_id _

/-- A frame takes the bytes of the encoding and its excess. -/
theorem Frame.length_bytes (frame : Frame) :
    (frame.bytes.length : Int) =
      (encodeCommand (frame.command.map Arg.bytes)).length + frame.excess := by
  rw [length_encodeCommand, map_wire_received, List.length_map]
  cases frame with
  | inline line =>
      simp only [bytes, command, excess, CRLF, List.length_append, List.length_cons,
        List.length_nil]
      push_cast
      ring
  | negative spelling =>
      have zeroDigits : (intBytes 0).length = 1 := by decide
      simp only [bytes, command, excess, CRLF, List.length_append,
        List.length_cons, List.length_nil, List.map_nil, List.sum_nil]
      push_cast
      rw [zeroDigits]
      ring
  | array spelling bulks =>
      have all : ((bulks.flatMap BulkFrame.bytes).length : Int) =
          ((bulks.map BulkFrame.value).map wordOverhead).sum +
            (bulks.map BulkFrame.excess).sum := by
        induction bulks with
        | nil => rfl
        | cons bulk rest ih =>
            simp only [List.flatMap_cons, List.length_append, Nat.cast_add, List.map_cons,
              List.sum_cons, ih, bulk.length_bytes]
            ring
      simp only [bytes, command, excess, CRLF, List.length_append, List.length_cons,
        List.length_nil, List.length_map]
      push_cast
      rw [all]
      ring

end Excess

end MiniCache
