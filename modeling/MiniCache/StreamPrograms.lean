import Mathlib.Data.List.TakeWhile

/-!
# Programs that read from a stream

A program awaits a line or a number of symbols from a stream and goes on with them.  On a
stream that is still open it goes as far as the symbols at hand allow and then waits; on a
stream that has ended it goes to its end.  In what pieces the symbols come does not matter.
-/

namespace StreamProgram

/-- A program that reads from a stream; it raises an error of its own when a line is over the
limit or the stream ends too early. -/
inductive Program (σ ε α : Type)
  | done (value : α)
  | fail (error : ε)
  | readline (overlong : ε) (next : List σ → Program σ ε α)
  | readexactly (count : Nat) (cut : ε) (next : List σ → Program σ ε α)

variable {σ ε α β : Type} [DecidableEq σ] (feed : σ) (limit : Nat)

/-- The symbols before the end of the first line. -/
def line (input : List σ) : List σ := input.takeWhile (· ≠ feed)

/-- The end of the first line, if it is at hand, and what follows. -/
def ending (input : List σ) : List σ := input.dropWhile (· ≠ feed)

namespace Program

/-- On an open stream: the program that is left, and the symbols that it has not read. -/
def resume : Program σ ε α → List σ → Program σ ε α × List σ
  | .done value, buffer => (.done value, buffer)
  | .fail error, _ => (.fail error, [])
  | .readline overlong next, buffer =>
      if limit < (line feed buffer).length then (.fail overlong, [])
      else if ending feed buffer = [] then (.readline overlong next, buffer)
      else (next (line feed buffer ++ (ending feed buffer).take 1)).resume
        ((ending feed buffer).drop 1)
  | .readexactly count cut next, buffer =>
      if buffer.length < count then (.readexactly count cut next, buffer)
      else (next (buffer.take count)).resume (buffer.drop count)

/-- On a stream that has ended: a last line need not be terminated. -/
def finish : Program σ ε α → List σ → Except ε (α × List σ)
  | .done value, input => .ok (value, input)
  | .fail error, _ => .error error
  | .readline overlong next, input =>
      if limit < (line feed input).length then .error overlong
      else (next (line feed input ++ (ending feed input).take 1)).finish
        ((ending feed input).drop 1)
  | .readexactly count cut next, input =>
      if input.length < count then .error cut
      else (next (input.take count)).finish (input.drop count)

/-- The program has not come to its end. -/
def waits : Program σ ε α → Bool
  | .done _ | .fail _ => false
  | .readline .. | .readexactly .. => true

/-- The program awaits more than the symbols at hand. -/
def Settled : Program σ ε α → List σ → Prop
  | .done _, _ | .fail _, _ => True
  | .readline _ _, buffer => ending feed buffer = []
  | .readexactly count _ _, buffer => buffer.length < count

/-- One program after the other. -/
def bind : Program σ ε α → (α → Program σ ε β) → Program σ ε β
  | .done value, after => after value
  | .fail error, _ => .fail error
  | .readline overlong next, after => .readline overlong fun line => (next line).bind after
  | .readexactly count cut next, after =>
      .readexactly count cut fun data => (next data).bind after

/-- A result that is at hand. -/
def ofExcept : Except ε α → Program σ ε α
  | .ok value => .done value
  | .error error => .fail error

theorem finish_ofExcept (result : Except ε α) (input : List σ) :
    (ofExcept result : Program σ ε α).finish feed limit input =
      result.bind fun value => .ok (value, input) := by
  cases result <;> rfl

theorem finish_bind (program : Program σ ε α) (after : α → Program σ ε β) (input : List σ) :
    (program.bind after).finish feed limit input =
      (program.finish feed limit input).bind fun read =>
        (after read.1).finish feed limit read.2 := by
  induction program generalizing input with
  | done value => rfl
  | fail error => rfl
  | readline overlong next ih =>
      simp only [bind, finish]
      split_ifs
      · rfl
      · exact ih _ _
  | readexactly count cut next ih =>
      simp only [bind, finish]
      split_ifs
      · rfl
      · exact ih _ _

end Program

section Lines

variable {feed} {limit}

/-- Behind a line that has ended more symbols change nothing. -/
theorem line_append {input : List σ} (ended : ending feed input ≠ []) (more : List σ) :
    line feed (input ++ more) = line feed input ∧
      ending feed (input ++ more) = ending feed input ++ more := by
  induction input with
  | nil => exact absurd rfl ended
  | cons symbol input ih =>
      by_cases last : symbol = feed
      · simp [line, ending, last]
      · have goesOn : ending feed (symbol :: input) = ending feed input := by
          simp [ending, last]
        obtain ⟨same, rest⟩ := ih (goesOn ▸ ended)
        refine ⟨?_, ?_⟩
        · simpa [line, last] using same
        · simpa [ending, last] using rest

/-- A line only grows. -/
theorem length_line_le (input more : List σ) :
    (line feed input).length ≤ (line feed (input ++ more)).length := by
  unfold line
  rw [List.takeWhile_append]
  split_ifs
  · rw [List.length_append]
    exact (List.takeWhile_prefix _).length_le.trans (Nat.le_add_right _ _)
  · exact le_rfl

theorem line_append_of_unended {input : List σ} (unended : ending feed input = [])
    (more : List σ) : line feed (input ++ more) = input ++ line feed more := by
  have within := List.dropWhile_eq_nil_iff.mp unended
  rw [line, List.takeWhile_append_of_pos within]
  rfl

theorem line_replicate {other : σ} (isOther : other ≠ feed) (count : Nat) :
    line feed (List.replicate count other) = List.replicate count other := by
  rw [line, List.takeWhile_eq_self_iff]
  intro symbol member
  rw [List.eq_of_mem_replicate member]
  simpa using isOther

end Lines

namespace Program

variable (program : Program σ ε α) (buffer more : List σ)

/-- A program that has gone as far as it could goes on as if all had come at once. -/
theorem resume_append :
    program.resume feed limit (buffer ++ more) =
      (program.resume feed limit buffer).1.resume feed limit
        ((program.resume feed limit buffer).2 ++ more) := by
  induction program generalizing buffer with
  | done value => rfl
  | fail error => rfl
  | readline overlong next ih =>
      simp only [resume]
      by_cases tooLong : limit < (line feed buffer).length
      · rw [if_pos tooLong, if_pos (tooLong.trans_le (length_line_le buffer more))]
        rfl
      · rw [if_neg tooLong]
        by_cases ended : ending feed buffer = []
        · rw [if_pos ended]
          rfl
        · obtain ⟨sameLine, sameEnding⟩ := line_append ended more
          have some : 1 ≤ (ending feed buffer).length := List.length_pos_iff.mpr ended
          have later : ¬ ending feed buffer ++ more = [] := by simp [ended]
          rw [sameLine, sameEnding, if_neg tooLong, if_neg later, if_neg ended,
            List.take_append_of_le_length some, List.drop_append_of_le_length some, ih]
  | readexactly count cut next ih =>
      simp only [resume]
      by_cases short : buffer.length < count
      · rw [if_pos short]
        rfl
      · have enough : count ≤ buffer.length := Nat.le_of_not_lt short
        have later : ¬ (buffer ++ more).length < count := by
          rw [List.length_append]
          omega
        rw [if_neg short, if_neg later, List.take_append_of_le_length enough,
          List.drop_append_of_le_length enough, ih]

/-- Nor does it matter for the end of the stream. -/
theorem finish_append :
    program.finish feed limit (buffer ++ more) =
      (program.resume feed limit buffer).1.finish feed limit
        ((program.resume feed limit buffer).2 ++ more) := by
  induction program generalizing buffer with
  | done value => rfl
  | fail error => rfl
  | readline overlong next ih =>
      simp only [resume]
      by_cases tooLong : limit < (line feed buffer).length
      · rw [if_pos tooLong]
        exact if_pos (tooLong.trans_le (length_line_le buffer more))
      · rw [if_neg tooLong]
        by_cases ended : ending feed buffer = []
        · rw [if_pos ended]
        · obtain ⟨sameLine, sameEnding⟩ := line_append ended more
          have some : 1 ≤ (ending feed buffer).length := List.length_pos_iff.mpr ended
          rw [finish, sameLine, sameEnding, if_neg tooLong, if_neg ended,
            List.take_append_of_le_length some, List.drop_append_of_le_length some, ih]
  | readexactly count cut next ih =>
      simp only [resume]
      by_cases short : buffer.length < count
      · rw [if_pos short]
      · have enough : count ≤ buffer.length := Nat.le_of_not_lt short
        have later : ¬ (buffer ++ more).length < count := by
          rw [List.length_append]
          omega
        rw [finish, if_neg short, if_neg later, List.take_append_of_le_length enough,
          List.drop_append_of_le_length enough, ih]

variable {program} {buffer}

/-- What a program has read on an open stream it has read for good. -/
theorem finish_of_done {value : α} {left : List σ}
    (resumed : program.resume feed limit buffer = (.done value, left)) :
    program.finish feed limit (buffer ++ more) = .ok (value, left ++ more) := by
  rw [finish_append, resumed]
  rfl

theorem settled_resume (program : Program σ ε α) (buffer : List σ) :
    (program.resume feed limit buffer).1.Settled feed (program.resume feed limit buffer).2 := by
  induction program generalizing buffer with
  | done value => trivial
  | fail error => trivial
  | readline overlong next ih =>
      rw [resume]
      split_ifs with tooLong ended
      · trivial
      · exact ended
      · exact ih _ _
  | readexactly count cut next ih =>
      rw [resume]
      split_ifs with short
      · exact short
      · exact ih _ _

/-- A program that ends whatever follows ends on the open stream. -/
theorem done_of_finish {other : σ} (isOther : other ≠ feed)
    (always : ∀ more, ∃ read, program.finish feed limit (buffer ++ more) = .ok read) :
    ∃ value left, program.resume feed limit buffer = (.done value, left) := by
  have settled := settled_resume feed limit program buffer
  rcases left : program.resume feed limit buffer with ⟨rest, unread⟩
  rw [left] at settled
  have stuck (more : List σ) (error : ε)
      (raises : rest.finish feed limit (unread ++ more) = .error error) : False := by
    obtain ⟨read, ends⟩ := always more
    rw [finish_append, left, raises] at ends
    cases ends
  cases rest with
  | done value => exact ⟨value, unread, rfl⟩
  | fail error => exact (stuck [] error rfl).elim
  | readline overlong next =>
      -- what follows may be a line over the limit
      have unended : ending feed unread = [] := settled
      refine (stuck (List.replicate (limit + 1) other) overlong (if_pos ?_)).elim
      rw [line_append_of_unended unended, List.length_append, line_replicate isOther,
        List.length_replicate]
      omega
  | readexactly count cut next =>
      have short : unread.length < count := settled
      refine (stuck [] cut (if_pos ?_)).elim
      rwa [List.append_nil]

end Program

end StreamProgram
