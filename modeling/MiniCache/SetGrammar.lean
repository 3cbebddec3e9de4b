import MiniCache.CommandErrors

/-!
# The grammar of the options of `SET`

`parse_set` reads its options with an index loop in which `EX` and `PX` take the next
argument, whatever it spells.  The tokens of the grammar, how arguments spell them and
what each of them sets are given here on their own, and the parser accepts the spellings
of grammatical tokens and nothing else.
-/

namespace MiniCache

section Casing

/-- The text is a name in some letter case. -/
def Casing (name text : Text) : Prop := text.map Char.toUpper = name

def optionLetters : Text := "NXGETP".toList

/-- No character outside ASCII has a capital form in the letters of the options only. -/
theorem Unicode.uppercase_stray {code : Nat} (outside : 128 ≤ code) :
    ∃ image ∈ Unicode.uppercase code, image ∉ optionLetters.map Char.toNat := by
  have expansions : ∀ expansion ∈ Unicode.uppercaseExpansions,
      ∃ image ∈ expansion.2, image ∉ optionLetters.map Char.toNat := by decide +kernel
  have runs : ∀ run ∈ Unicode.uppercaseRuns, 128 ≤ run.2.2.2 ∨
      run.1 = run.2.1 ∧ run.2.2.2 ∉ optionLetters.map Char.toNat := by decide +kernel
  have large {image : Nat} (outside : 128 ≤ image) :
      image ∉ optionLetters.map Char.toNat := by
    have letters : ∀ letter ∈ optionLetters.map Char.toNat, letter < 128 := by decide
    intro member
    exact absurd (letters image member) (by omega)
  unfold Unicode.uppercase
  split
  · rename_i expansion found
    exact expansions expansion (List.mem_of_find?_eq_some found)
  · split
    · rename_i first last step image found
      refine ⟨_, List.mem_singleton_self _, ?_⟩
      have inside := List.find?_some found
      simp only [Bool.decide_and, Bool.and_eq_true, decide_eq_true_eq] at inside
      rcases runs _ (List.mem_of_find?_eq_some found) with outside | ⟨single, stray⟩
      · exact large (by dsimp only at outside; omega)
      · dsimp only at single
        rwa [show code - first = 0 by omega, Nat.add_zero]
    · exact ⟨code, List.mem_singleton_self code, large outside⟩

theorem upperChar_stray {char : Char} (outside : 128 ≤ char.toNat) :
    ∃ image ∈ upperChar char, image ∉ optionLetters := by
  obtain ⟨image, member, stray⟩ := Unicode.uppercase_stray outside
  refine ⟨Char.ofNat image, ?_, ?_⟩
  · rw [upperChar, if_neg (by omega)]
    exact List.mem_map_of_mem member
  · intro letter
    apply stray
    rw [List.mem_map]
    refine ⟨_, letter, ?_⟩
    by_cases valid : image.isValidChar
    · rw [Char.ofNat, dif_pos valid]
      rfl
    · rw [Char.ofNat, dif_neg valid] at letter
      exact absurd letter (by decide)

theorem toUpper_of_outside {char : Char} (outside : 128 ≤ char.toNat) : char.toUpper = char := by
  refine dif_neg ?_
  rintro ⟨-, low⟩
  change char.toNat ≤ 122 at low
  omega

/-- For the options, `upper` only changes the case of ASCII letters. -/
theorem upper_eq_iff {name text : Text} (letters : name ⊆ optionLetters) :
    upper text = name ↔ Casing name text := by
  have ascii (inside : ∀ char ∈ text, char.toNat < 128) : upper text = text.map Char.toUpper := by
    rw [upper, List.map_eq_flatMap]
    exact List.flatMap_congr fun char member => upperChar_of_ascii (inside char member)
  have small : ∀ letter ∈ optionLetters, letter.toNat < 128 := by simp [optionLetters]
  constructor
  · intro same
    rw [Casing, ← same]
    refine (ascii ?_).symm
    intro char member
    by_contra outside
    obtain ⟨image, shown, stray⟩ := upperChar_stray (not_lt.mp outside)
    apply stray
    apply letters
    rw [← same]
    exact List.mem_flatMap.mpr ⟨char, member, shown⟩
  · intro same
    rw [← show text.map Char.toUpper = name from same]
    apply ascii
    intro char member
    by_contra outside
    have shown : char.toUpper ∈ name := same ▸ List.mem_map_of_mem member
    rw [toUpper_of_outside (not_lt.mp outside)] at shown
    exact outside (small char (letters shown))

end Casing

/-- A token of the options of `SET`. -/
inductive SetToken
  | nx
  | xx
  | get
  | ex (number : Nat)
  | px (number : Nat)
deriving DecidableEq

/-- An argument is a positive 64-bit number in ASCII digits, of which `int` takes 4300. -/
structure Writes (arg : Arg) (number : Nat) : Prop where
  digits : AllDigits (toText arg)
  short : (toText arg).length ≤ 4300
  value : Nat.ofDigitChars 10 (toText arg) 0 = number
  positive : 1 ≤ number
  bounded : number ≤ 2 ^ 63 - 1

namespace SetToken

/-- The arguments that spell a token. -/
def Spelled : SetToken → List Arg → Prop
  | .nx, piece => ∃ arg, piece = [arg] ∧ Casing "NX".toList (toText arg)
  | .xx, piece => ∃ arg, piece = [arg] ∧ Casing "XX".toList (toText arg)
  | .get, piece => ∃ arg, piece = [arg] ∧ Casing "GET".toList (toText arg)
  | .ex number, piece => ∃ unit amount, piece = [unit, amount] ∧
      Casing "EX".toList (toText unit) ∧ Writes amount number
  | .px number, piece => ∃ unit amount, piece = [unit, amount] ∧
      Casing "PX".toList (toText unit) ∧ Writes amount number

/-- The lifetime that a pair gives. -/
def lifetime : SetToken → Option Time
  | .ex number => some number
  | .px number => some (number / 1000)
  | _ => none

/-- At most one pair, and not both `NX` and `XX`. -/
structure Grammatical (tokens : List SetToken) : Prop where
  single : (tokens.filterMap lifetime).length ≤ 1
  exclusive : ¬(nx ∈ tokens ∧ xx ∈ tokens)

/-- The options that tokens stand for. -/
def options (key value : Arg) (tokens : List SetToken) : SetOptions where
  key := key
  value := value
  nx := decide (nx ∈ tokens)
  xx := decide (xx ∈ tokens)
  get := decide (get ∈ tokens)
  ttl := (tokens.filterMap lifetime).head?

/-- What a token changes. -/
def grant (opts : SetOptions) : SetToken → SetOptions
  | .nx => { opts with nx := true }
  | .xx => { opts with xx := true }
  | .get => { opts with get := true }
  | .ex number => { opts with ttl := some number }
  | .px number => { opts with ttl := some (number / 1000) }

end SetToken

section Amounts

theorem Writes.parseInt {arg : Arg} {number : Nat} (writes : Writes arg number) :
    parseInt arg = .ok (number : Int) := by
  have read : intOfText (toText arg) = some (number : Int) := by
    rw [intOfText_of_printable writes.digits.printable, readInt_of_allDigits writes.digits,
      readDigits_of_allDigits writes.digits, if_pos (show _ ≤ maxStrDigits from writes.short),
      writes.value]
    rfl
  have bounded := writes.bounded
  have inRange : InInt64 (number : Int) := by
    unfold InInt64
    omega
  unfold MiniCache.parseInt
  dsimp only
  rw [if_pos (matchesInt_of_allDigits writes.digits), read]
  exact if_pos inRange

/-- A number that `_parse_int` reads is written in digits if it is positive. -/
theorem writes_of_parseInt {arg : Arg} {number : Int} (read : parseInt arg = .ok number)
    (positive : 0 < number) : Writes arg number.toNat := by
  obtain ⟨spelled, inRange⟩ := parseInt_ok read
  have shape : matchesInt (toText arg) = true := by
    unfold parseInt at read
    dsimp only at read
    split_ifs at read with shape
    exact shape
  have short : ((toText arg).filter Char.isDigit).length ≤ maxStrDigits := by
    by_contra long
    rw [(intOfText_eq_none_iff shape).mpr (not_le.mp long)] at spelled
    cases spelled
  unfold InInt64 at inRange
  rcases matchesInt_cases shape with ⟨run, negative, digits⟩ | digits
  · exfalso
    have printable : ∀ char ∈ '-' :: run, char.toNat < 127 :=
      List.forall_mem_cons.mpr ⟨by decide, digits.printable⟩
    rw [negative, intOfText_of_printable printable, readInt_neg,
      readDigits_of_allDigits digits] at spelled
    split_ifs at spelled
    · have negated : -(Nat.ofDigitChars 10 run 0 : Int) = number := Option.some.inj spelled
      omega
    · cases spelled
  · rw [digits.filter_eq] at short
    rw [intOfText_of_printable digits.printable, readInt_of_allDigits digits,
      readDigits_of_allDigits digits, if_pos short, Option.map_some] at spelled
    obtain rfl := Option.some.inj spelled
    simp only [Int.ofNat_eq_natCast] at positive inRange ⊢
    exact ⟨digits, short, rfl, by omega, by omega⟩

variable {unit : Text} {amount : Arg}

theorem Writes.parseTtl {number : Nat} (writes : Writes amount number) :
    parseTtl unit amount =
      .ok (if unit = "EX".toList then (number : Time) else number / 1000) := by
  have positive := writes.positive
  unfold MiniCache.parseTtl
  rw [writes.parseInt]
  dsimp only
  rw [if_neg (by omega)]
  split_ifs <;> simp

theorem writes_of_parseTtl {ttl : Time} (read : parseTtl unit amount = .ok ttl) :
    ∃ number, Writes amount number := by
  unfold parseTtl at read
  cases amountRead : parseInt amount with
  | error raised =>
      rw [amountRead] at read
      cases read
  | ok number =>
      simp only [amountRead] at read
      split_ifs at read with nonpositive
      all_goals exact ⟨_, writes_of_parseInt amountRead (not_le.mp nonpositive)⟩

end Amounts

namespace SetToken

section Loop

variable {tokens : List SetToken} {pieces : List (List Arg)} {token : SetToken}
  {piece rest : List Arg} {opts : SetOptions}

/-- One token of a spelling takes one or two turns of the loop's counter. -/
theorem parseSetOptions_piece (spelled : token.Spelled piece)
    (free : opts.ttl = none ∨ token.lifetime = none) :
    parseSetOptions (piece ++ rest) opts = parseSetOptions rest (token.grant opts) := by
  cases token with
  | nx | xx | get =>
      obtain ⟨arg, rfl, casing⟩ := spelled
      have named := (upper_eq_iff (by decide)).mpr casing
      rw [List.singleton_append, parseSetOptions.eq_def (arg :: rest)]
      simp only [named]
      rfl
  | ex number | px number =>
      obtain ⟨unit, amount, rfl, casing, writes⟩ := spelled
      have named := (upper_eq_iff (by decide)).mpr casing
      have unset : opts.ttl = none := free.resolve_right (by simp [lifetime])
      rw [List.cons_append, List.singleton_append,
        parseSetOptions.eq_def (unit :: amount :: rest)]
      simp only [named, unset, writes.parseTtl]
      rfl

/-- A second pair is refused whatever comes after it. -/
theorem parseSetOptions_second (spelled : token.Spelled piece) (timed : opts.ttl ≠ none)
    (pair : token.lifetime ≠ none) :
    parseSetOptions (piece ++ rest) opts = .error syntaxError := by
  obtain ⟨ttl, set⟩ := Option.ne_none_iff_exists'.mp timed
  cases token with
  | nx | xx | get => exact absurd rfl pair
  | ex number | px number =>
      obtain ⟨unit, amount, rfl, casing, writes⟩ := spelled
      have named := (upper_eq_iff (by decide)).mpr casing
      rw [List.cons_append, List.singleton_append,
        parseSetOptions.eq_def (unit :: amount :: rest)]
      simp only [named, set]
      rfl

theorem grant_ttl (opts : SetOptions) (token : SetToken) :
    (token.grant opts).ttl = token.lifetime.or opts.ttl := by
  cases token <;> simp [grant, lifetime]

/-- The lifetimes that are set already and those that tokens give. -/
def lifetimes (opts : SetOptions) (tokens : List SetToken) : List Time :=
  opts.ttl.toList ++ tokens.filterMap lifetime

/-- The loop on a spelling: each token in turn, until there is a second pair. -/
theorem parseSetOptions_spelled (spelled : List.Forall₂ Spelled tokens pieces)
    (opts : SetOptions) :
    parseSetOptions pieces.flatten opts =
      if (lifetimes opts tokens).length ≤ 1 then .ok (tokens.foldl (fun opts => grant opts) opts)
      else .error syntaxError := by
  induction spelled generalizing opts with
  | nil =>
      have single : (lifetimes opts []).length ≤ 1 := by
        cases timed : opts.ttl <;> simp [lifetimes, timed]
      rw [if_pos single]
      rfl
  | @cons token piece tokens pieces spelled _ ih =>
      rw [List.flatten_cons, List.foldl_cons]
      cases given : token.lifetime with
      | none =>
          have same : lifetimes (token.grant opts) tokens = lifetimes opts (token :: tokens) := by
            simp [lifetimes, grant_ttl, given]
          rw [parseSetOptions_piece spelled (.inr given), ih, same]
      | some ttl =>
          by_cases timed : opts.ttl = none
          · have same : lifetimes (token.grant opts) tokens =
                lifetimes opts (token :: tokens) := by
              simp [lifetimes, grant_ttl, given, timed]
            rw [parseSetOptions_piece spelled (.inl timed), ih, same]
          · obtain ⟨other, set⟩ := Option.ne_none_iff_exists'.mp timed
            rw [parseSetOptions_second spelled timed (by simp [given]), if_neg]
            simp [lifetimes, set, given]

/-- What is accepted is the spelling of tokens. -/
theorem spelled_of_parseSetOptions {args : List Arg} {left : SetOptions}
    (parsed : parseSetOptions args opts = .ok left) :
    ∃ tokens pieces, args = pieces.flatten ∧ List.Forall₂ Spelled tokens pieces := by
  have single {arg : Arg} {rest : List Arg} {token : SetToken} (spelled : token.Spelled [arg])
      (found : ∃ tokens pieces, rest = pieces.flatten ∧ List.Forall₂ Spelled tokens pieces) :
      ∃ tokens pieces, arg :: rest = pieces.flatten ∧ List.Forall₂ Spelled tokens pieces := by
    obtain ⟨tokens, pieces, rfl, others⟩ := found
    exact ⟨token :: tokens, [arg] :: pieces, rfl, .cons spelled others⟩
  revert parsed
  fun_induction parseSetOptions args opts with
  | case1 opts => exact fun _ => ⟨[], [], rfl, .nil⟩
  | case2 arg rest opts option named ih =>
      intro parsed
      exact @single _ _ .nx ⟨arg, rfl, (upper_eq_iff (by decide)).mp named⟩ (ih parsed)
  | case3 arg rest opts option _ named ih =>
      intro parsed
      exact @single _ _ .xx ⟨arg, rfl, (upper_eq_iff (by decide)).mp named⟩ (ih parsed)
  | case4 arg rest opts option _ _ named ih =>
      intro parsed
      exact @single _ _ .get ⟨arg, rfl, (upper_eq_iff (by decide)).mp named⟩ (ih parsed)
  | case5 => rintro ⟨⟩
  | case6 arg opts option _ _ _ named amount rest unset ttl read ih =>
      intro parsed
      obtain ⟨tokens, pieces, rfl, others⟩ := ih parsed
      obtain ⟨number, writes⟩ := writes_of_parseTtl read
      rcases named with isEx | isPx
      · exact ⟨.ex number :: tokens, [arg, amount] :: pieces, rfl,
          .cons ⟨arg, amount, rfl, (upper_eq_iff (by decide)).mp isEx, writes⟩ others⟩
      · exact ⟨.px number :: tokens, [arg, amount] :: pieces, rfl,
          .cons ⟨arg, amount, rfl, (upper_eq_iff (by decide)).mp isPx, writes⟩ others⟩
  | case7 | case8 => rintro ⟨⟩

/-- What all tokens change. -/
theorem foldl_grant (tokens : List SetToken) (opts : SetOptions) :
    tokens.foldl (fun opts => grant opts) opts =
      { opts with
        nx := opts.nx || decide (nx ∈ tokens)
        xx := opts.xx || decide (xx ∈ tokens)
        get := opts.get || decide (get ∈ tokens)
        ttl := (lifetimes opts tokens).getLast? } := by
  induction tokens generalizing opts with
  | nil =>
      obtain ⟨key, value, nx, xx, get, ttl⟩ := opts
      cases ttl <;> simp [lifetimes]
  | cons token tokens ih =>
      rw [List.foldl_cons, ih]
      cases token <;> simp [grant, lifetimes, lifetime, List.getLast?_cons]

end Loop

section Grammar

variable {tokens : List SetToken} {pieces : List (List Arg)} {key value : Arg}

theorem getLast?_of_single {α : Type*} {entries : List α} (single : entries.length ≤ 1) :
    entries.getLast? = entries.head? := by
  match entries, single with
  | [], _ | [entry], _ => rfl

theorem parseSet_spelled (spelled : List.Forall₂ Spelled tokens pieces) :
    parseSet (key :: value :: pieces.flatten) =
      if (tokens.filterMap lifetime).length ≤ 1 ∧ ¬(nx ∈ tokens ∧ xx ∈ tokens) then
        .ok (options key value tokens)
      else .error syntaxError := by
  have unset : lifetimes ⟨key, value, false, false, false, none⟩ tokens =
      tokens.filterMap lifetime := rfl
  rw [parseSet, parseSetOptions_spelled spelled, unset]
  by_cases single : (tokens.filterMap lifetime).length ≤ 1
  · rw [if_pos single, foldl_grant, unset, getLast?_of_single single]
    by_cases both : nx ∈ tokens ∧ xx ∈ tokens
    · simp [both]
    · simp [single, both, options]
  · rw [if_neg single, if_neg fun grammatical => single grammatical.1]

theorem options_perm {reordered : List SetToken} (perm : reordered.Perm tokens)
    (single : (tokens.filterMap lifetime).length ≤ 1) :
    options key value reordered = options key value tokens := by
  have lifetimes : reordered.filterMap lifetime = tokens.filterMap lifetime := by
    have permuted := perm.filterMap lifetime
    match found : tokens.filterMap lifetime, single with
    | [], _ => exact List.perm_nil.mp (found ▸ permuted)
    | [ttl], _ => exact List.perm_singleton.mp (found ▸ permuted)
  simp only [options, perm.mem_iff, lifetimes]

/-- `parse_set` accepts the spellings of grammatical tokens after a key and a value and
nothing else, gives what the tokens stand for, and does not depend on their order. -/
theorem parseSet_grammar :
    (∀ args, (∃ opts, parseSet args = .ok opts) ↔
      ∃ key value tokens pieces, args = key :: value :: pieces.flatten ∧
        List.Forall₂ Spelled tokens pieces ∧ Grammatical tokens) ∧
    (∀ key value tokens pieces, List.Forall₂ Spelled tokens pieces → Grammatical tokens →
      parseSet (key :: value :: pieces.flatten) = .ok (options key value tokens)) ∧
    ∀ key value tokens pieces reordered opts, List.Forall₂ Spelled tokens pieces →
      List.Perm reordered pieces → parseSet (key :: value :: pieces.flatten) = .ok opts →
        parseSet (key :: value :: reordered.flatten) = .ok opts := by
  have accepts {key value : Arg} {tokens : List SetToken} {pieces : List (List Arg)}
      (spelled : List.Forall₂ Spelled tokens pieces) (grammatical : Grammatical tokens) :
      parseSet (key :: value :: pieces.flatten) = .ok (options key value tokens) := by
    rw [parseSet_spelled spelled, if_pos ⟨grammatical.single, grammatical.exclusive⟩]
  have accepted {key value : Arg} {tokens : List SetToken} {pieces : List (List Arg)}
      {opts : SetOptions} (spelled : List.Forall₂ Spelled tokens pieces)
      (parsed : parseSet (key :: value :: pieces.flatten) = .ok opts) :
      Grammatical tokens ∧ opts = options key value tokens := by
    rw [parseSet_spelled spelled] at parsed
    split_ifs at parsed with grammatical
    exact ⟨⟨grammatical.1, grammatical.2⟩, (Except.ok.inj parsed).symm⟩
  refine ⟨fun args => ⟨?_, ?_⟩, fun _ _ _ _ => accepts, ?_⟩
  · rintro ⟨opts, parsed⟩
    obtain ⟨args, rfl⟩ := parseSet_args parsed
    obtain ⟨left, read⟩ : ∃ left, parseSetOptions args
        ⟨opts.key, opts.value, false, false, false, none⟩ = .ok left := by
      rw [parseSet] at parsed
      split at parsed
      · cases parsed
      · exact ⟨_, by assumption⟩
    obtain ⟨tokens, pieces, rfl, spelled⟩ := spelled_of_parseSetOptions read
    exact ⟨opts.key, opts.value, tokens, pieces, rfl, spelled, (accepted spelled parsed).1⟩
  · rintro ⟨key, value, tokens, pieces, rfl, spelled, grammatical⟩
    exact ⟨_, accepts spelled grammatical⟩
  · intro key value tokens pieces reordered opts spelled perm parsed
    obtain ⟨grammatical, rfl⟩ := accepted spelled parsed
    obtain ⟨others, spelling, permuted⟩ := List.perm_comp_forall₂ perm spelled.flip
    rw [accepts spelling.flip ⟨(permuted.filterMap lifetime).length_eq ▸ grammatical.single, by
      simpa only [permuted.mem_iff] using grammatical.exclusive⟩,
      options_perm permuted grammatical.single]

end Grammar

end SetToken

end MiniCache
