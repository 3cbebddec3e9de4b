import MiniCache.UnicodeTables
import Mathlib.Data.List.TakeWhile
import Mathlib.Data.Nat.Digits.Defs
import Mathlib.Tactic.SplitIfs

/-!
# Bytes, text and integer literals

The parts of the Python `bytes`, `str` and `int` types that the program uses:
UTF-8 and ASCII decoding with replacement characters, UTF-8 encoding, full
upper-casing, and the reading and printing of decimal integers.
-/

namespace MiniCache

abbrev Bytes := List UInt8

abbrev Text := List Char

instance : LawfulBEq Text := inferInstance

/-- An argument of a command: `bytes`, or `str` on the way in. -/
inductive Arg
  | bytes (data : Bytes)
  | str (text : Text)
deriving DecidableEq

/-- `text.encode("utf-8")`. -/
def encodeUtf8 (text : Text) : Bytes := text.flatMap String.utf8EncodeChar

/-- The number of continuation bytes that a lead byte announces, with the range
of the first of them. -/
def leadByte (byte : UInt8) : Option (Nat × UInt8 × UInt8) :=
  if byte < 0xC2 then none
  else if byte < 0xE0 then some (1, 0x80, 0xBF)
  else if byte = 0xE0 then some (2, 0xA0, 0xBF)
  else if byte = 0xED then some (2, 0x80, 0x9F)
  else if byte < 0xF0 then some (2, 0x80, 0xBF)
  else if byte = 0xF0 then some (3, 0x90, 0xBF)
  else if byte < 0xF4 then some (3, 0x80, 0xBF)
  else if byte = 0xF4 then some (3, 0x80, 0x8F)
  else none

/-- The longest run of at most `count` continuation bytes, the first of them
between `low` and `high`. -/
def continuation : Nat → UInt8 → UInt8 → Bytes → Bytes
  | count + 1, low, high, byte :: rest =>
      if low ≤ byte ∧ byte ≤ high then
        byte :: continuation count 0x80 0xBF rest
      else
        []
  | _, _, _, _ => []

/-- The code point of a complete multi-byte sequence. -/
def codePoint (lead : UInt8) (tail : Bytes) : Nat :=
  tail.foldl (fun code byte => code * 64 + byte.toNat % 64)
    (lead.toNat % 2 ^ (6 - tail.length))

/-- `data.decode("utf-8", errors="replace")`: every maximal ill-formed part of
a sequence becomes one replacement character. -/
def decodeUtf8 : Bytes → Text
  | [] => []
  | byte :: rest =>
      if byte < 0x80 then
        Char.ofNat byte.toNat :: decodeUtf8 rest
      else
        match leadByte byte with
        | none => '\uFFFD' :: decodeUtf8 rest
        | some (count, low, high) =>
            let tail := continuation count low high rest
            if tail.length = count then
              Char.ofNat (codePoint byte tail) :: decodeUtf8 (rest.drop tail.length)
            else
              '\uFFFD' :: decodeUtf8 (rest.drop tail.length)
termination_by data => data.length
decreasing_by all_goals simp only [List.length_cons, List.length_drop]; omega

/-- `data.decode("ascii", errors="replace")`. -/
def decodeAscii (data : Bytes) : Text :=
  data.map fun byte => if byte < 0x80 then Char.ofNat byte.toNat else '\uFFFD'

def upperChar (char : Char) : Text :=
  if char.toNat < 128 then [char.toUpper]
  else (Unicode.uppercase char.toNat).map Char.ofNat

/-- `text.upper()`. -/
def upper (text : Text) : Text := text.flatMap upperChar

/-- `to_text`. -/
def toText : Arg → Text
  | .bytes data => decodeUtf8 data
  | .str text => text

/-- The bytes an argument has on the wire. -/
def Arg.wire : Arg → Bytes
  | .bytes data => data
  | .str text => encodeUtf8 text

/-- `str(number)`. -/
def intText (number : Int) : Text :=
  if number < 0 then '-' :: Nat.toDigits 10 number.natAbs
  else Nat.toDigits 10 number.natAbs

/-- The white space that `int` skips around ASCII text. -/
def isIntSpace (char : Char) : Bool :=
  char = ' ' || (9 ≤ char.toNat && char.toNat ≤ 13)

/-- Digits with single underscores between them. -/
def isDigitRun (run : Text) : Bool :=
  run.head? != some '_' && run.getLast? != some '_' && !run.isEmpty &&
    (run.zip run.tail).all fun (first, second) => first != '_' || second != '_'

/-- The largest number of digits `int` converts. -/
def maxStrDigits : Nat := 4300

/-- The digits of an unsigned literal, followed by white space only. -/
def readDigits (literal : Text) : Option Nat :=
  let run := literal.takeWhile fun char => char.isDigit || char = '_'
  let digits := run.filter (· ≠ '_')
  if isDigitRun run && (literal.dropWhile fun char => char.isDigit || char = '_').all isIntSpace &&
      digits.length ≤ maxStrDigits then
    some (Nat.ofDigitChars 10 digits 0)
  else
    none

/-- `int` on ASCII text; `none` stands for `ValueError`. -/
def readInt (text : Text) : Option Int :=
  match text.dropWhile isIntSpace with
  | '-' :: literal => (readDigits literal).map fun number => -(number : Int)
  | '+' :: literal => (readDigits literal).map Int.ofNat
  | literal => (readDigits literal).map Int.ofNat

/-- The ASCII form of a character of a `str` literal: other white space becomes
a blank and other decimal digits become ASCII digits. -/
def literalChar (char : Char) : Char :=
  if char.toNat < 127 then char
  else if char.toNat ∈ Unicode.spaces then ' '
  else match Unicode.decimalValue char.toNat with
    | some digit => Nat.digitChar digit
    | none => '?'

/-- `int(text)`. -/
def intOfText (text : Text) : Option Int := readInt (text.map literalChar)

/-- `int(data)`. -/
def intOfBytes (data : Bytes) : Option Int :=
  readInt (data.map fun byte => Char.ofNat byte.toNat)

section Fnmatch

/-- A part of a shell-style pattern. -/
inductive Glob
  | star
  | any
  | one (char : Char)
  | range (negated : Bool) (bounds : List (Char × Char))
deriving DecidableEq

/-- The members of a character class as ranges; a hyphen between two characters
makes one. -/
def globBounds : Text → List (Char × Char)
  | low :: '-' :: high :: rest => (low, high) :: globBounds rest
  | char :: rest => (char, char) :: globBounds rest
  | [] => []

/-- The class after an opening bracket, with the pattern after its end. A
closing bracket in first place belongs to the class. -/
def globClass (pattern : Text) : Option (Glob × Text) :=
  let negated := pattern.head? == some '!'
  let body := if negated then pattern.tail else pattern
  let first := if body.head? == some ']' then [']'] else []
  let rest := body.drop first.length
  match rest.dropWhile (· ≠ ']') with
  | [] => none
  | _ :: after =>
      some (.range negated (globBounds (first ++ rest.takeWhile (· ≠ ']'))), after)

/-- The parts of a pattern; every turn uses up at least one character. -/
def globParts : Nat → Text → List Glob
  | _, [] => []
  | 0, _ => []
  | fuel + 1, '*' :: rest => .star :: globParts fuel rest
  | fuel + 1, '?' :: rest => .any :: globParts fuel rest
  | fuel + 1, '[' :: rest =>
      match globClass rest with
      | none => .one '[' :: globParts fuel rest
      | some (part, after) => part :: globParts fuel after
  | fuel + 1, char :: rest => .one char :: globParts fuel rest

def globMatch : List Glob → Text → Bool
  | [], text => text.isEmpty
  | .star :: parts, text => text.tails.any (globMatch parts)
  | .any :: parts, text => !text.isEmpty && globMatch parts text.tail
  | .one char :: parts, text => text.head? == some char && globMatch parts text.tail
  | .range negated bounds :: parts, text =>
      match text with
      | [] => false
      | char :: rest =>
          negated != (bounds.any fun (low, high) => low ≤ char && char ≤ high) &&
            globMatch parts rest

/-- `fnmatch.fnmatchcase` on text. -/
def fnmatchText (name pattern : Text) : Bool :=
  globMatch (globParts pattern.length pattern) name

/-- The text that stands for `bytes` in a match, byte by byte. -/
def latin1 (data : Bytes) : Text := data.map fun byte => Char.ofNat byte.toNat

end Fnmatch

/-- Text of ASCII characters only. -/
def IsAscii (text : Text) : Prop := ∀ char ∈ text, char.toNat < 128

theorem encodeUtf8_of_isAscii {text : Text} (ascii : IsAscii text) :
    encodeUtf8 text = text.map fun char => UInt8.ofNat char.toNat := by
  induction text with
  | nil => rfl
  | cons char rest ih =>
      have small : char.toNat ≤ 127 :=
        Nat.le_of_lt_succ (ascii char (by simp))
      have single : String.utf8EncodeChar char = [UInt8.ofNat char.toNat] :=
        if_pos small
      have tail := ih fun other member => ascii other (by simp [member])
      rw [encodeUtf8] at tail ⊢
      rw [List.flatMap_cons, tail, single]
      rfl

theorem decodeUtf8_cons_ascii {byte : UInt8} (small : byte < 0x80)
    (rest : Bytes) :
    decodeUtf8 (byte :: rest) = Char.ofNat byte.toNat :: decodeUtf8 rest := by
  rw [decodeUtf8, if_pos small]

theorem decodeUtf8_of_ascii {data : Bytes} (ascii : ∀ byte ∈ data, byte < 0x80) :
    decodeUtf8 data = data.map fun byte => Char.ofNat byte.toNat := by
  induction data with
  | nil => simp [decodeUtf8]
  | cons byte rest ih =>
      rw [decodeUtf8_cons_ascii (ascii byte (by simp)),
        ih fun other member => ascii other (by simp [member])]
      rfl

/-- Both decoders read ASCII alike. -/
theorem decodeAscii_of_ascii {data : Bytes} (ascii : ∀ byte ∈ data, byte < 0x80) :
    decodeAscii data = decodeUtf8 data := by
  rw [decodeUtf8_of_ascii ascii]
  apply List.map_congr_left
  intro byte member
  simp [ascii byte member]

theorem ofNat_toNat_of_lt {code : Nat} (small : code < 128) :
    (UInt8.ofNat code).toNat = code := by
  rw [UInt8.toNat_ofNat']
  omega

theorem encodeUtf8_small {text : Text} (ascii : IsAscii text) :
    ∀ byte ∈ encodeUtf8 text, byte < 0x80 := by
  rw [encodeUtf8_of_isAscii ascii]
  intro byte member
  obtain ⟨char, charMem, rfl⟩ := List.mem_map.mp member
  rw [UInt8.lt_iff_toNat_lt, ofNat_toNat_of_lt (ascii char charMem)]
  exact ascii char charMem

section Utf8

theorem toNat_byte {number : Nat} (small : number < 256) :
    (UInt8.ofNat number).toNat = number := by
  rw [UInt8.toNat_ofNat']
  exact Nat.mod_eq_of_lt small

theorem not_ascii {number : Nat} (small : number < 256) (large : 128 ≤ number) :
    ¬ UInt8.ofNat number < 0x80 := by
  rw [UInt8.lt_iff_toNat_lt, toNat_byte small]
  exact not_lt_of_ge large

theorem leadByte_ofNat {number : Nat} (small : number < 256) :
    leadByte (UInt8.ofNat number) =
      if number < 0xC2 then none
      else if number < 0xE0 then some (1, 0x80, 0xBF)
      else if number = 0xE0 then some (2, 0xA0, 0xBF)
      else if number = 0xED then some (2, 0x80, 0x9F)
      else if number < 0xF0 then some (2, 0x80, 0xBF)
      else if number = 0xF0 then some (3, 0x90, 0xBF)
      else if number < 0xF4 then some (3, 0x80, 0xBF)
      else if number = 0xF4 then some (3, 0x80, 0x8F)
      else none := by
  simp only [leadByte, UInt8.lt_iff_toNat_lt, ← UInt8.toNat_inj, toNat_byte small]
  rfl

/-- A continuation byte for the low six bits of a number. -/
def tailByte (bits : Nat) : UInt8 := UInt8.ofNat (bits % 64 + 128)

theorem toNat_tailByte (bits : Nat) : (tailByte bits).toNat = bits % 64 + 128 :=
  toNat_byte (by omega)

theorem continuation_zero (low high : UInt8) (rest : Bytes) :
    continuation 0 low high rest = [] := by
  cases rest <;> rfl

theorem continuation_cons {count bits : Nat} {low high : UInt8} {rest : Bytes}
    (lower : low.toNat ≤ bits % 64 + 128) (upper : bits % 64 + 128 ≤ high.toNat) :
    continuation (count + 1) low high (tailByte bits :: rest) =
      tailByte bits :: continuation count 0x80 0xBF rest := by
  rw [continuation, if_pos]
  rw [UInt8.le_iff_toNat_le, UInt8.le_iff_toNat_le, toNat_tailByte]
  exact ⟨lower, upper⟩

theorem continuation_tailByte (count bits : Nat) (rest : Bytes) :
    continuation (count + 1) 0x80 0xBF (tailByte bits :: rest) =
      tailByte bits :: continuation count 0x80 0xBF rest := by
  apply continuation_cons
  · show 128 ≤ bits % 64 + 128
    omega
  · show bits % 64 + 128 ≤ 191
    omega

/-- The lead byte of three admits the first continuation byte of any character
that is no surrogate. -/
theorem leadByte_three {code : Nat} (lower : 0x7FF < code) (upper : code ≤ 0xFFFF)
    (valid : code < 0xD800 ∨ 0xDFFF < code) :
    ∃ low high, leadByte (UInt8.ofNat (code / 4096 % 16 + 224)) = some (2, low, high) ∧
      low.toNat ≤ code / 64 % 64 + 128 ∧ code / 64 % 64 + 128 ≤ high.toNat := by
  rw [leadByte_ofNat (by omega), if_neg (by omega), if_neg (by omega)]
  split_ifs
  · exact ⟨_, _, rfl, show 160 ≤ _ by omega, show _ ≤ 191 by omega⟩
  · exact ⟨_, _, rfl, show 128 ≤ _ by omega, show _ ≤ 159 by omega⟩
  · exact ⟨_, _, rfl, show 128 ≤ _ by omega, show _ ≤ 191 by omega⟩
  all_goals omega

theorem leadByte_four {code : Nat} (lower : 0xFFFF < code) (upper : code < 0x110000) :
    ∃ low high, leadByte (UInt8.ofNat (code / 262144 % 8 + 240)) = some (3, low, high) ∧
      low.toNat ≤ code / 4096 % 64 + 128 ∧ code / 4096 % 64 + 128 ≤ high.toNat := by
  rw [leadByte_ofNat (by omega), if_neg (by omega), if_neg (by omega), if_neg (by omega),
    if_neg (by omega), if_neg (by omega)]
  split_ifs
  · exact ⟨_, _, rfl, show 144 ≤ _ by omega, show _ ≤ 191 by omega⟩
  · exact ⟨_, _, rfl, show 128 ≤ _ by omega, show _ ≤ 191 by omega⟩
  · exact ⟨_, _, rfl, show 128 ≤ _ by omega, show _ ≤ 143 by omega⟩
  all_goals omega

/-- A complete sequence is decoded to its code point. -/
theorem decodeUtf8_sequence {lead : UInt8} {tail rest : Bytes} {low high : UInt8}
    (notAscii : ¬ lead < 0x80) (announced : leadByte lead = some (tail.length, low, high))
    (continues : continuation tail.length low high (tail ++ rest) = tail) :
    decodeUtf8 (lead :: (tail ++ rest)) =
      Char.ofNat (codePoint lead tail) :: decodeUtf8 rest := by
  rw [decodeUtf8, if_neg notAscii, announced]
  simp [continues]

theorem decodeUtf8_char (char : Char) (rest : Bytes) :
    decodeUtf8 (String.utf8EncodeChar char ++ rest) = char :: decodeUtf8 rest := by
  have valid : char.toNat < 0xD800 ∨ 0xDFFF < char.toNat ∧ char.toNat < 0x110000 :=
    char.valid
  have back : ∀ number, number = char.toNat → Char.ofNat number = char := by
    rintro _ rfl
    exact Char.ofNat_toNat char
  unfold String.utf8EncodeChar
  simp only [show char.val.toNat = char.toNat from rfl]
  generalize char.toNat = code at *
  split_ifs with one two three
  · have value := @toNat_byte code (by omega)
    rw [List.cons_append, List.nil_append, decodeUtf8_cons_ascii, back]
    · exact value
    · rw [UInt8.lt_iff_toNat_lt, value]
      exact Nat.lt_succ_of_le one
  · have announced : leadByte (UInt8.ofNat (code / 64 % 32 + 192)) = some (1, 0x80, 0xBF) := by
      rw [leadByte_ofNat (by omega), if_neg (by omega), if_pos (by omega)]
    refine (@decodeUtf8_sequence _ [tailByte code] _ _ _
      (not_ascii (by omega) (by omega)) announced ?_).trans ?_
    · simp only [List.length_singleton, List.singleton_append, continuation_tailByte,
        continuation_zero]
    · rw [back]
      simp only [codePoint, List.foldl_cons, List.foldl_nil, toNat_tailByte,
        List.length_singleton]
      rw [toNat_byte (by omega)]
      omega
  · obtain ⟨low, high, announced, lower, upper⟩ :=
      leadByte_three (by omega) three (valid.imp_right And.left)
    refine (@decodeUtf8_sequence _ [tailByte (code / 64), tailByte code] _ _ _
      (not_ascii (by omega) (by omega)) announced ?_).trans ?_
    · simp only [List.length_cons, List.length_nil, List.cons_append, List.nil_append,
        continuation_cons lower upper, continuation_tailByte, continuation_zero]
    · rw [back]
      simp only [codePoint, List.foldl_cons, List.foldl_nil, toNat_tailByte,
        List.length_cons, List.length_nil]
      rw [toNat_byte (by omega)]
      omega
  · obtain ⟨low, high, announced, lower, upper⟩ := @leadByte_four code (by omega) (by omega)
    refine (@decodeUtf8_sequence _
      [tailByte (code / 4096), tailByte (code / 64), tailByte code] _ _ _
      (not_ascii (by omega) (by omega)) announced ?_).trans ?_
    · simp only [List.length_cons, List.length_nil, List.cons_append, List.nil_append,
        continuation_cons lower upper, continuation_tailByte, continuation_zero]
    · rw [back]
      simp only [codePoint, List.foldl_cons, List.foldl_nil, toNat_tailByte,
        List.length_cons, List.length_nil]
      rw [toNat_byte (by omega)]
      omega

/-- Text survives the trip over the wire. -/
theorem decodeUtf8_encodeUtf8 (text : Text) : decodeUtf8 (encodeUtf8 text) = text := by
  induction text with
  | nil => rw [encodeUtf8, List.flatMap_nil, decodeUtf8]
  | cons char rest ih =>
      rw [encodeUtf8] at ih ⊢
      rw [List.flatMap_cons, decodeUtf8_char, ih]

/-- Only a line feed has the byte of a line feed in its encoding. -/
theorem feed_mem_encodeUtf8_iff {text : Text} :
    (10 : UInt8) ∈ encodeUtf8 text ↔ '\n' ∈ text := by
  have single (char : Char) : (10 : UInt8) ∈ String.utf8EncodeChar char ↔ char = '\n' := by
    have code : char = '\n' ↔ char.toNat = 10 := Char.toNat_inj.symm
    rw [code]
    unfold String.utf8EncodeChar
    simp only [show char.val.toNat = char.toNat from rfl]
    have valid : char.toNat < 0x110000 := by
      rcases char.valid with small | ⟨-, small⟩
      · exact lt_trans (show char.toNat < 0xD800 from small) (by decide)
      · exact small
    generalize char.toNat = code at *
    have ten : (10 : UInt8).toNat = 10 := rfl
    split_ifs <;> simp only [List.mem_cons, List.not_mem_nil, or_false, ← UInt8.toNat_inj, ten]
    all_goals
      repeat rw [toNat_byte (by omega)]
      omega
  simp [encodeUtf8, single]

end Utf8

theorem upperChar_of_ascii {char : Char} (small : char.toNat < 128) :
    upperChar char = [char.toUpper] := by
  rw [upperChar, if_pos small]

section Literals

theorem toNat_of_isDigit {char : Char} (digit : char.isDigit = true) :
    48 ≤ char.toNat ∧ char.toNat ≤ 57 := by
  simp only [Char.isDigit, Bool.and_eq_true, decide_eq_true_eq,
    UInt32.le_iff_toNat_le] at digit
  exact digit

theorem isDigit_of_mem_toDigits {number : Nat} {char : Char}
    (member : char ∈ Nat.toDigits 10 number) : char.isDigit = true :=
  Nat.isDigit_of_mem_toDigits (by decide) (by decide) member

theorem intText_printable {number : Int} {char : Char}
    (member : char ∈ intText number) : char.toNat < 127 := by
  unfold intText at member
  have digitCase (digitMem : char ∈ Nat.toDigits 10 number.natAbs) :
      char.toNat < 127 := by
    have := toNat_of_isDigit (isDigit_of_mem_toDigits digitMem)
    omega
  split_ifs at member with negative
  · rcases List.mem_cons.mp member with rfl | digitMem
    · decide
    · exact digitCase digitMem
  · exact digitCase member

theorem intText_isAscii (number : Int) : IsAscii (intText number) :=
  fun _ member => Nat.lt_succ_of_lt (intText_printable member)

/-- A nonempty run of digits, and nothing else. -/
def AllDigits (run : Text) : Prop := run ≠ [] ∧ ∀ char ∈ run, char.isDigit = true

theorem toDigits_allDigits (number : Nat) : AllDigits (Nat.toDigits 10 number) :=
  ⟨Nat.toDigits_ne_nil, fun _ => isDigit_of_mem_toDigits⟩

theorem ne_underscore_of_isDigit {char : Char} (digit : char.isDigit = true) :
    char ≠ '_' := by
  rintro rfl
  exact absurd digit (by decide)

theorem isDigitRun_of_allDigits {run : Text} (digits : AllDigits run) :
    isDigitRun run = true := by
  obtain ⟨nonempty, allDigits⟩ := digits
  have headNe : run.head? ≠ some '_' := fun head =>
    ne_underscore_of_isDigit (allDigits _ (List.mem_of_head? head)) rfl
  have lastNe : run.getLast? ≠ some '_' := fun last =>
    ne_underscore_of_isDigit (allDigits _ (List.mem_of_getLast? last)) rfl
  have pairs : (run.zip run.tail).all
      (fun (first, second) => first != '_' || second != '_') = true := by
    rw [List.all_eq_true]
    rintro ⟨first, second⟩ member
    have firstNe := ne_underscore_of_isDigit
      (allDigits first (List.of_mem_zip member).1)
    simp [firstNe]
  simp [isDigitRun, headNe, lastNe, nonempty, pairs]

/-- A run of digits is read as the number it spells, unless there are more than
4300 of them. -/
theorem readDigits_of_allDigits {run : Text} (digits : AllDigits run) :
    readDigits run =
      if run.length ≤ maxStrDigits then some (Nat.ofDigitChars 10 run 0) else none := by
  have inRun : ∀ char ∈ run, (char.isDigit || char = '_') = true := by
    intro char member
    simp [digits.2 char member]
  have taken : run.takeWhile (fun char => char.isDigit || char = '_') = run :=
    List.takeWhile_eq_self_iff.mpr inRun
  have dropped : run.dropWhile (fun char => char.isDigit || char = '_') = [] :=
    List.dropWhile_eq_nil_iff.mpr inRun
  have filtered : run.filter (fun char => decide (char ≠ '_')) = run := by
    apply List.filter_eq_self.mpr
    intro char member
    simpa using ne_underscore_of_isDigit (digits.2 char member)
  simp only [readDigits, taken, dropped, filtered,
    isDigitRun_of_allDigits digits, List.all_nil, Bool.true_and, decide_eq_true_eq]

theorem not_isIntSpace_of_isDigit {char : Char} (digit : char.isDigit = true) :
    isIntSpace char = false := by
  have bounds := toNat_of_isDigit digit
  have notBlank : char ≠ ' ' := by
    rintro rfl
    exact absurd digit (by decide)
  simp [isIntSpace, notBlank]
  omega

theorem readInt_of_allDigits {run : Text} (digits : AllDigits run) :
    readInt run = (readDigits run).map Int.ofNat := by
  obtain ⟨char, rest, rfl⟩ := List.exists_cons_of_ne_nil digits.1
  have digit := digits.2 char (by simp)
  have notMinus : char ≠ '-' := by
    rintro rfl
    exact absurd digit (by decide)
  have notPlus : char ≠ '+' := by
    rintro rfl
    exact absurd digit (by decide)
  have stays : (char :: rest).dropWhile isIntSpace = char :: rest := by
    rw [List.dropWhile_cons_of_neg]
    simp [not_isIntSpace_of_isDigit digit]
  unfold readInt
  rw [stays]
  split
  · rename_i minus
    exact absurd (List.cons.inj minus).1 notMinus
  · rename_i plus
    exact absurd (List.cons.inj plus).1 notPlus
  · rfl

theorem readInt_neg (literal : Text) :
    readInt ('-' :: literal) =
      (readDigits literal).map fun number => -(number : Int) := by
  have stays : ('-' :: literal).dropWhile isIntSpace = '-' :: literal := by
    rw [List.dropWhile_cons_of_neg]
    decide
  unfold readInt
  rw [stays]
  rfl

/-- A printed number within the digit limit is read back. -/
theorem readInt_intText {number : Int} (small : number.natAbs < 10 ^ maxStrDigits) :
    readInt (intText number) = some number := by
  have short : (Nat.toDigits 10 number.natAbs).length ≤ maxStrDigits :=
    (Nat.length_toDigits_le_iff (by decide) (by decide)).mpr small
  have digits := toDigits_allDigits number.natAbs
  unfold intText
  split_ifs with negative
  · rw [readInt_neg, readDigits_of_allDigits digits, if_pos short,
      Nat.ofDigitChars_ten_toDigits]
    have negated : -((number.natAbs : Nat) : Int) = number := by omega
    exact congrArg some negated
  · rw [readInt_of_allDigits digits, readDigits_of_allDigits digits, if_pos short,
      Nat.ofDigitChars_ten_toDigits, Option.map_some]
    congr 1
    simp only [Int.ofNat_eq_natCast]
    omega

theorem literalChar_of_isAscii {char : Char} (small : char.toNat < 127) :
    literalChar char = char := by
  rw [literalChar, if_pos small]

/-- Printable ASCII text is a literal as it stands. -/
theorem intOfText_of_printable {text : Text} (printable : ∀ char ∈ text, char.toNat < 127) :
    intOfText text = readInt text := by
  have same : text.map literalChar = text := by
    conv_rhs => rw [← List.map_id text]
    exact List.map_congr_left fun char member =>
      literalChar_of_isAscii (printable char member)
  rw [intOfText, same]

theorem intOfText_intText {number : Int}
    (small : number.natAbs < 10 ^ maxStrDigits) :
    intOfText (intText number) = some number := by
  rw [intOfText_of_printable fun _ => intText_printable, readInt_intText small]

/-- A printed number on the wire is read back as text. -/
theorem toText_intText (number : Int) :
    toText (.bytes (encodeUtf8 (intText number))) = intText number :=
  decodeUtf8_encodeUtf8 (intText number)

theorem intOfBytes_intText {number : Int}
    (small : number.natAbs < 10 ^ maxStrDigits) :
    intOfBytes (encodeUtf8 (intText number)) = some number := by
  rw [intOfBytes, ← decodeUtf8_of_ascii (encodeUtf8_small (intText_isAscii number)),
    decodeUtf8_encodeUtf8, readInt_intText small]

end Literals

end MiniCache
