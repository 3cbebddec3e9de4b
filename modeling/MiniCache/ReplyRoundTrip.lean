import MiniCache.ProtocolFrames

/-!
# Replies survive the trip over the wire

Reading an encoded reply gives its normal form and leaves what follows it, for
every reply within the limits of the reader and nested to any depth.  The normal
form forgets what the wire does not show: the difference between a truth value
and a number, between a simple string and a `str`, and between a `str` and its
bytes.
-/

namespace MiniCache

namespace Value

mutual

/-- What a reader makes of a reply. -/
def normal : Value → Value
  | .simpleString text => .arg (.str text)
  | .error text => .error text
  | .bool flag => .int (if flag then 1 else 0)
  | .int number => .int number
  | .null => .null
  | .arg data => .arg (.bytes data.wire)
  | .list items => .list (normalAll items)

def normalAll : List Value → List Value
  | [] => []
  | item :: items => normal item :: normalAll items

end

/-- Text that fits on one line of the stream, after its mark. -/
def FitsLine (text : Text) : Prop :=
  '\n' ∉ text ∧ (encodeUtf8 text).length + 1 < streamLimit

instance : DecidablePred FitsLine := fun _ => inferInstanceAs (Decidable (_ ∧ _))

mutual

/-- A reply within the limits of the reader. -/
def Sendable : Value → Prop
  | .simpleString text => FitsLine text
  | .error text => FitsLine text
  | .bool _ | .null => True
  | .int number => number.natAbs < 10 ^ maxStrDigits
  | .arg data => data.wire.length ≤ MAX_BULK_LENGTH
  | .list items => items.length ≤ MAX_ARRAY_LENGTH ∧ AllSendable items

def AllSendable : List Value → Prop
  | [] => True
  | item :: items => Sendable item ∧ AllSendable items

end

/-- Induction over replies, with all items of a list at once. -/
@[elab_as_elim]
theorem induct {motive : Value → Prop}
    (simpleString : ∀ text, motive (.simpleString text))
    (error : ∀ text, motive (.error text)) (bool : ∀ flag, motive (.bool flag))
    (int : ∀ number, motive (.int number)) (null : motive .null)
    (arg : ∀ data, motive (.arg data))
    (list : ∀ items, (∀ item ∈ items, motive item) → motive (.list items)) :
    ∀ value, motive value :=
  Value.rec (motive_1 := motive) (motive_2 := fun items => ∀ item ∈ items, motive item)
    simpleString error bool int null arg list (by simp)
    fun _ _ item items => List.forall_mem_cons.mpr ⟨item, items⟩

theorem allSendable_iff {items : List Value} :
    AllSendable items ↔ ∀ item ∈ items, Sendable item := by
  induction items with
  | nil => simp [AllSendable]
  | cons item items ih => simp [AllSendable, ih]

theorem normalAll_eq_map (items : List Value) : normalAll items = items.map normal := by
  induction items with
  | nil => rfl
  | cons item items ih => rw [normalAll, List.map_cons, ih]

end Value

section Lines

variable {fuel : Nat}

/-- The line of a text reply. -/
theorem FitsLine.line {text : Text} {mark : UInt8} (fits : Value.FitsLine text)
    (markNe : mark ≠ 10) :
    (10 : UInt8) ∉ mark :: encodeUtf8 text ∧
      (mark :: encodeUtf8 text).length < streamLimit := by
  refine ⟨?_, fits.2⟩
  rw [List.mem_cons, feed_mem_encodeUtf8_iff]
  rintro (same | inText)
  · exact markNe same.symm
  · exact fits.1 inText

theorem readReplyWith_simpleString {text : Text} (fits : Value.FitsLine text) (rest : Bytes) :
    readReplyWith (fuel + 1) (43 :: encodeUtf8 text ++ CRLF ++ rest) =
      .ok (.arg (.str text), rest) := by
  obtain ⟨noFeed, short⟩ := @FitsLine.line text 43 fits (by decide)
  rw [readReplyWith, readLine_append noFeed short]
  simp only [bind, Except.bind, decodeUtf8_encodeUtf8]

theorem readReplyWith_error {text : Text} (fits : Value.FitsLine text) (rest : Bytes) :
    readReplyWith (fuel + 1) (45 :: encodeUtf8 text ++ CRLF ++ rest) =
      .ok (.error text, rest) := by
  obtain ⟨noFeed, short⟩ := @FitsLine.line text 45 fits (by decide)
  rw [readReplyWith, readLine_append noFeed short]
  simp only [bind, Except.bind, decodeUtf8_encodeUtf8]

theorem feed_not_mem_intBytes (number : Int) : (10 : UInt8) ∉ intBytes number := by
  rw [intBytes, feed_mem_encodeUtf8_iff]
  intro member
  unfold intText at member
  split_ifs at member
  · rcases List.mem_cons.mp member with isFeed | inDigits
    · exact absurd isFeed (by decide)
    · exact absurd (isDigit_of_mem_toDigits inDigits) (by decide)
  · exact absurd (isDigit_of_mem_toDigits member) (by decide)

theorem length_intBytes_le {number : Int} (small : number.natAbs < 10 ^ maxStrDigits) :
    (intBytes number).length ≤ maxStrDigits + 1 := by
  rw [intBytes, length_encodeUtf8_intText]
  exact length_intText_le small (by decide)

theorem natAbs_small {number : Int} (small : number.natAbs < 10) :
    number.natAbs < 10 ^ maxStrDigits :=
  lt_of_lt_of_le small (Nat.le_self_pow (by decide) 10)

theorem readReplyWith_int {number : Int} (small : number.natAbs < 10 ^ maxStrDigits)
    (rest : Bytes) :
    readReplyWith (fuel + 1) (58 :: intBytes number ++ CRLF ++ rest) =
      .ok (.int number, rest) := by
  have noFeed : (10 : UInt8) ∉ 58 :: intBytes number := by
    rw [List.mem_cons]
    rintro (isMark | inDigits)
    · exact absurd isMark (by decide)
    · exact feed_not_mem_intBytes number inDigits
  have short : (58 :: intBytes number).length < streamLimit :=
    lt_of_le_of_lt (Nat.succ_le_succ (length_intBytes_le small)) (by decide)
  rw [readReplyWith, readLine_append noFeed short]
  simp only [bind, Except.bind, parseLength, intBytes, intOfBytes_intText small]

theorem readReplyWith_null (rest : Bytes) :
    readReplyWith (fuel + 1) (36 :: [45, 49] ++ CRLF ++ rest) = .ok (.null, rest) := by
  have noFeed : (10 : UInt8) ∉ (36 : UInt8) :: [45, 49] := by decide
  have short : ((36 : UInt8) :: [45, 49]).length < streamLimit := by decide
  rw [readReplyWith, readLine_append noFeed short]
  rfl

theorem readReplyWith_bulk {data : Bytes} (within : data.length ≤ MAX_BULK_LENGTH)
    (rest : Bytes) :
    readReplyWith (fuel + 1) (encodeBulk data ++ rest) = .ok (.arg (.bytes data), rest) := by
  obtain ⟨noFeed, short⟩ := @lengthLine 36 (by decide) _ (bulk_small within)
  have notNull : ¬ ((data.length : Int) = -1) := by omega
  have shape : encodeBulk data ++ rest =
      36 :: intBytes data.length ++ CRLF ++ (data ++ (CRLF ++ rest)) := by
    simp [encodeBulk]
  have trailer : readexactly 2 (CRLF ++ rest) = .ok (CRLF, rest) :=
    readexactly_append CRLF rest
  rw [shape, readReplyWith, readLine_append noFeed short]
  simp only [bind, Except.bind, parseLength_intBytes (bulk_small within),
    checkBulkLength_ok within, if_neg notNull, Int.toNat_natCast, readexactly_append, trailer]

/-- The header of an array, before its items. -/
theorem readReplyWith_header {count : Nat} (within : count ≤ MAX_ARRAY_LENGTH)
    (input : Bytes) :
    readReplyWith (fuel + 1) (42 :: intBytes count ++ CRLF ++ input) =
      (do
        let (items, input) ← readMany (readReplyWith fuel) count input
        .ok (.list items, input)) := by
  obtain ⟨noFeed, short⟩ := @lengthLine 42 (by decide) _ (array_small within)
  have notNull : ¬ ((count : Int) = -1) := by omega
  have inBounds : ¬ ((count : Int) < 0 ∨ (MAX_ARRAY_LENGTH : Int) < count) := by omega
  rw [readReplyWith, readLine_append noFeed short]
  simp only [bind, Except.bind, parseLength_intBytes (array_small within),
    if_neg notNull, if_neg inBounds, Int.toNat_natCast]

end Lines

section RoundTrip

theorem encodeAll_eq_flatMap (items : List Value) : encodeAll items = items.flatMap encode := by
  induction items with
  | nil => rfl
  | cons item items ih => rw [encodeAll, ih, List.flatMap_cons]

theorem length_encode_le {item : Value} {items : List Value} (member : item ∈ items) :
    (encode item).length ≤ (encodeAll items).length := by
  obtain ⟨before, after, rfl⟩ := List.append_of_mem member
  simp only [encodeAll_eq_flatMap, List.flatMap_append, List.flatMap_cons, List.length_append]
  omega

/-- Every reply survives the trip, whatever follows it. -/
theorem readReplyWith_encode {value : Value} {fuel : Nat} (sendable : value.Sendable)
    (enough : (encode value).length ≤ fuel) (rest : Bytes) :
    readReplyWith (fuel + 1) (encode value ++ rest) = .ok (value.normal, rest) := by
  induction value using Value.induct generalizing fuel rest with
  | simpleString text => exact readReplyWith_simpleString sendable rest
  | error text => exact readReplyWith_error sendable rest
  | bool flag =>
      cases flag
      · exact readReplyWith_int (@natAbs_small 0 (by decide)) rest
      · exact readReplyWith_int (@natAbs_small 1 (by decide)) rest
  | int number => exact readReplyWith_int sendable rest
  | null => exact readReplyWith_null rest
  | arg data =>
      rw [encode_arg]
      exact readReplyWith_bulk sendable rest
  | list items ih =>
      obtain ⟨within, all⟩ := sendable
      rw [Value.allSendable_iff] at all
      have shorter : (encodeAll items).length < fuel := by
        simp only [encode, List.length_cons, List.length_append] at enough
        omega
      obtain ⟨inner, rfl⟩ := Nat.exists_eq_succ_of_ne_zero (Nat.ne_zero_of_lt shorter)
      have each : ∀ item ∈ items, ∀ rest,
          readReplyWith (inner + 1) (encode item ++ rest) = .ok (item.normal, rest) := by
        intro item member rest
        exact ih item member (all item member)
          ((length_encode_le member).trans (Nat.le_of_lt_succ shorter)) rest
      rw [encode, List.append_assoc, readReplyWith_header within, encodeAll_eq_flatMap,
        readMany_append each, Value.normal, Value.normalAll_eq_map]
      rfl

theorem readReply_encode {value : Value} (sendable : value.Sendable) (rest : Bytes) :
    readReply (encode value ++ rest) = .ok (value.normal, rest) := by
  refine readReplyWith_encode sendable ?_ rest
  rw [List.length_append]
  exact Nat.le_add_right _ _

/-- Reading an encoded reply gives its normal form and leaves what follows, so
that equal encodings have equal normal forms. -/
theorem reply_round_trip {value : Value} (sendable : value.Sendable) :
    (∀ rest, readReply (encode value ++ rest) = .ok (value.normal, rest)) ∧
      ∀ other : Value, other.Sendable → encode other = encode value →
        other.normal = value.normal := by
  refine ⟨readReply_encode sendable, ?_⟩
  intro other otherSendable same
  have first := readReply_encode otherSendable []
  rw [same, readReply_encode sendable []] at first
  exact (congrArg Prod.fst (Except.ok.inj first)).symm

/-- Null, empty and negative values with a payload that looks like their ends. -/
def lookalikeReply : Value :=
  .list [.null, .arg (.bytes []), .list [], .int (-1), .arg (.bytes [13, 10]),
    .list [.error "-1\r".toList, .arg (.str "$-1".toList)]]

theorem reply_round_trip_lookalike :
    readReply (encode lookalikeReply ++ [13, 10]) = .ok (lookalikeReply.normal, [13, 10]) := by
  refine (reply_round_trip ?_).1 [13, 10]
  rw [lookalikeReply, Value.Sendable]
  refine ⟨by decide, ?_⟩
  rw [Value.allSendable_iff]
  simp only [List.forall_mem_cons, List.not_mem_nil, false_implies, implies_true, and_true,
    Value.Sendable, Value.AllSendable, true_and]
  exact ⟨by decide, by decide, natAbs_small (by decide), by decide, by decide, by decide,
    by decide⟩

end RoundTrip

section Limits

theorem LineOk.unique {first second before after : Bytes} (firstOk : (10 : UInt8) ∉ first)
    (secondOk : (10 : UInt8) ∉ second)
    (same : first ++ CRLF ++ before = second ++ CRLF ++ after) : first = second := by
  have taken {line : Bytes} (noFeed : (10 : UInt8) ∉ line) (rest : Bytes) :
      (line ++ CRLF ++ rest).takeWhile (fun byte => decide (byte ≠ 10)) = line ++ [13] := by
    have inLine : ∀ byte ∈ line ++ [13], decide (byte ≠ (10 : UInt8)) = true := by
      intro byte member
      rcases List.mem_append.mp member with inside | isReturn
      · exact decide_eq_true fun isFeed => noFeed (isFeed ▸ inside)
      · rw [List.mem_singleton.mp isReturn]
        decide
    have split : line ++ CRLF ++ rest = (line ++ [13]) ++ 10 :: rest := by simp [CRLF]
    rw [split, List.takeWhile_append_of_pos inLine]
    simp
  have lines := taken firstOk before
  rw [same, taken secondOk after] at lines
  exact (List.append_cancel_right lines).symm

/-- A number is read back from its digits, or not at all. -/
theorem intOfBytes_intBytes {number found : Int}
    (read : intOfBytes (intBytes number) = some found) :
    number.natAbs < 10 ^ maxStrDigits ∧ found = number := by
  have digits := toDigits_allDigits number.natAbs
  have small : number.natAbs < 10 ^ maxStrDigits := by
    rw [intBytes, intOfBytes, ← decodeUtf8_of_ascii (encodeUtf8_small (intText_isAscii number)),
      decodeUtf8_encodeUtf8, intText] at read
    rw [← Nat.length_toDigits_le_iff (by decide) (by decide)]
    by_contra long
    split_ifs at read
    · rw [readInt_neg, readDigits_of_allDigits digits, if_neg long] at read
      cases read
    · rw [readInt_of_allDigits digits, readDigits_of_allDigits digits, if_neg long] at read
      cases read
  refine ⟨small, ?_⟩
  rw [intBytes, intOfBytes_intText small] at read
  exact (Option.some.inj read).symm

/-- A reply that is read starts with a whole line. -/
theorem readReplyWith_line {fuel : Nat} {input rest : Bytes} {value : Value}
    (done : readReplyWith (fuel + 1) input = .ok (value, rest)) :
    ∃ line after, input = line ++ CRLF ++ after ∧ LineOk line := by
  rw [readReplyWith] at done
  obtain ⟨⟨line, after⟩, first, done⟩ := Except.bind_eq_ok done
  cases line with
  | none => cases done
  | some line => exact ⟨line, after, readLine_eq_some_iff.mp first⟩

theorem fitsLine_of_read {fuel : Nat} {text : Text}
    (done : readReplyWith (fuel + 1) (encode (.error text)) = .ok (.error text, [])) :
    Value.FitsLine text := by
  obtain ⟨line, after, shape, lineOk⟩ := readReplyWith_line done
  rw [encode] at shape done
  cases line with
  | nil => simp [CRLF] at shape
  | cons mark body =>
      obtain ⟨rfl, -⟩ : (45 : UInt8) = mark ∧ _ := by
        simpa only [List.cons_append, List.cons.injEq] using shape
      rw [shape, readReplyWith, readLine_append lineOk.1 lineOk.2] at done
      simp only [bind, Except.bind, Except.ok.injEq, Prod.mk.injEq] at done
      rw [done.2, List.append_nil] at shape
      have whole := List.append_cancel_right shape
      rw [← whole] at lineOk
      refine ⟨fun member => lineOk.1 ?_, lineOk.2⟩
      exact List.mem_cons_of_mem _ (feed_mem_encodeUtf8_iff.mpr member)

theorem small_of_read {fuel : Nat} {number : Int} {value : Value} {rest : Bytes}
    (done : readReplyWith (fuel + 1) (encode (.int number)) = .ok (value, rest)) :
    number.natAbs < 10 ^ maxStrDigits := by
  obtain ⟨line, after, shape, lineOk⟩ := readReplyWith_line done
  rw [encode] at shape done
  have noFeed : (10 : UInt8) ∉ 58 :: intBytes number := by
    rw [List.mem_cons]
    rintro (isMark | inDigits)
    · exact absurd isMark (by decide)
    · exact feed_not_mem_intBytes number inDigits
  obtain rfl : line = 58 :: intBytes number :=
    LineOk.unique lineOk.1 noFeed (by rw [← shape, List.append_nil])
  rw [shape, readReplyWith, readLine_append lineOk.1 lineOk.2] at done
  simp only [bind, Except.bind] at done
  cases parsed : parseLength (intBytes number) "integer reply".toList with
  | error error =>
      rw [parsed] at done
      cases done
  | ok found => exact (intOfBytes_intBytes (parseLength_eq_ok.mp parsed)).1

theorem count_of_read {fuel : Nat} {items : List Value} {value : Value} {rest : Bytes}
    (done : readReplyWith (fuel + 1) (encode (.list items)) = .ok (value, rest)) :
    items.length ≤ MAX_ARRAY_LENGTH := by
  obtain ⟨line, after, shape, lineOk⟩ := readReplyWith_line done
  rw [encode] at shape done
  have noFeed : (10 : UInt8) ∉ 42 :: intBytes items.length := by
    rw [List.mem_cons]
    rintro (isMark | inDigits)
    · exact absurd isMark (by decide)
    · exact feed_not_mem_intBytes _ inDigits
  obtain rfl : line = 42 :: intBytes items.length :=
    LineOk.unique lineOk.1 noFeed shape.symm
  rw [shape, readReplyWith, readLine_append lineOk.1 lineOk.2] at done
  simp only [bind, Except.bind] at done
  cases parsed : parseLength (intBytes items.length) "array length".toList with
  | error error =>
      rw [parsed] at done
      cases done
  | ok found =>
      obtain ⟨-, rfl⟩ := intOfBytes_intBytes (parseLength_eq_ok.mp parsed)
      by_contra large
      have notNull : ¬ ((items.length : Int) = -1) := by omega
      have outside : (items.length : Int) < 0 ∨ (MAX_ARRAY_LENGTH : Int) < items.length := by
        omega
      rw [parsed] at done
      simp only [if_neg notNull, if_pos outside] at done
      cases done

/-- A bulk string that is read is within the limit. -/
theorem bulk_of_read {fuel : Nat} {data rest : Bytes} {value : Value}
    (done : readReplyWith (fuel + 1) (encodeBulk data) = .ok (value, rest)) :
    data.length ≤ MAX_BULK_LENGTH := by
  obtain ⟨line, after, shape, lineOk⟩ := readReplyWith_line done
  have bulk : encodeBulk data = 36 :: intBytes data.length ++ CRLF ++ (data ++ CRLF) := by
    simp [encodeBulk]
  rw [bulk] at shape done
  have noFeed : (10 : UInt8) ∉ 36 :: intBytes data.length := by
    rw [List.mem_cons]
    rintro (isMark | inDigits)
    · exact absurd isMark (by decide)
    · exact feed_not_mem_intBytes _ inDigits
  obtain rfl : line = 36 :: intBytes data.length := LineOk.unique lineOk.1 noFeed shape.symm
  rw [readReplyWith, readLine_append lineOk.1 lineOk.2] at done
  obtain ⟨-, ⟨⟩, done⟩ := Except.bind_eq_ok done
  obtain ⟨found, parsed, done⟩ := Except.bind_eq_ok done
  obtain ⟨⟨⟩, checked, -⟩ := Except.bind_eq_ok done
  obtain ⟨-, rfl⟩ := intOfBytes_intBytes (parseLength_eq_ok.mp parsed)
  exact Int.ofNat_le.mp (checkBulkLength_eq_ok.mp checked).2

/-- A reply whose parts are within the limits of the reader, if not the whole. -/
def Value.Shallow : Value → Prop
  | .error _ | .int _ => True
  | .list items => ∀ item ∈ items, item.Sendable
  | other => other.Sendable

/-- A shallow reply that is read back is within the limits of the reader. -/
theorem sendable_of_read {value : Value} (shallow : value.Shallow)
    (done : readReply (encode value) = .ok (value.normal, [])) : value.Sendable := by
  cases value with
  | error text => exact fitsLine_of_read done
  | int number => exact small_of_read done
  | list items => exact ⟨count_of_read done, Value.allSendable_iff.mpr shallow⟩
  | simpleString text | bool flag | null | arg data => exact shallow

end Limits

end MiniCache
