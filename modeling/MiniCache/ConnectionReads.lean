import MiniCache.ClusterLinks
import MiniCache.ServerConnections

/-!
# Reading from an open stream

The coroutines of the protocol read on an open stream, in whatever pieces its bytes come, what
the protocol reads from all of them at once.
-/

namespace MiniCache

open StreamProgram (Program)

namespace Coroutine

theorem readline_eq (input : Bytes) :
    readline input =
      if streamLimit < (StreamProgram.line 10 input).length then none
      else some (StreamProgram.line 10 input ++ (StreamProgram.ending 10 input).take 1,
        (StreamProgram.ending 10 input).drop 1) := by
  unfold readline
  cases ended : StreamProgram.ending 10 input with
  | nil =>
      have nothing : input.dropWhile (· ≠ 10) = [] := ended
      simp only [nothing, List.take_nil, List.drop_nil, List.append_nil]
      rfl
  | cons last rest =>
      have something : input.dropWhile (· ≠ 10) = last :: rest := ended
      simp only [something]
      rfl

theorem finish_readLine (input : Bytes) :
    readLine.finish 10 streamLimit input = MiniCache.readLine input := by
  unfold readLine MiniCache.readLine
  rw [Program.finish, readline_eq]
  by_cases tooLong : streamLimit < (StreamProgram.line 10 input).length
  · rw [if_pos tooLong, if_pos tooLong]
  · rw [if_neg tooLong, if_neg tooLong]
    generalize StreamProgram.line 10 input ++ (StreamProgram.ending 10 input).take 1 = raw
    cases raw with
    | nil => rfl
    | cons symbol raw =>
        rw [if_neg (List.cons_ne_nil symbol raw)]
        dsimp only
        split_ifs <;> rfl

theorem finish_readexactly (count : Nat) (input : Bytes) :
    (readexactly count).finish 10 streamLimit input = MiniCache.readexactly count input := by
  unfold readexactly MiniCache.readexactly
  rw [Program.finish]
  split_ifs <;> rfl

theorem finish_readBulkString (input : Bytes) :
    readBulkString.finish 10 streamLimit input = MiniCache.readBulkString input := by
  unfold readBulkString MiniCache.readBulkString
  rw [Program.finish_bind, finish_readLine]
  rcases MiniCache.readLine input with error | ⟨header, rest⟩
  · rfl
  simp only [bind, Except.bind]
  split
  · rfl
  · rename_i body
    simp only [Program.finish_bind, Program.finish_ofExcept, Except.bind]
    rcases parseLength body "bulk string length".toList with error | length
    · rfl
    dsimp only
    rcases checkBulkLength length with error | _
    · rfl
    dsimp only
    split_ifs
    · rfl
    simp only [Program.finish_bind, finish_readexactly, Except.bind]
    rcases MiniCache.readexactly length.toNat rest with error | ⟨data, after⟩
    · rfl
    dsimp only
    rcases MiniCache.readexactly 2 after with error | ⟨trailer, left⟩
    · rfl
    dsimp only
    split_ifs <;> rfl
  · rename_i header other
    -- the split above may have decided the match of the protocol too
    first
      | rfl
      | split
        · contradiction
        · rename_i same
          exact (other _ (Option.some.inj same)).elim
        · rename_i same
          rw [Option.some.inj same]
          rfl

theorem finish_readBulkStrings (count : Nat) (input : Bytes) :
    (readBulkStrings count).finish 10 streamLimit input =
      MiniCache.readBulkStrings count input := by
  induction count generalizing input with
  | zero => rfl
  | succ count ih =>
      rw [readBulkStrings, MiniCache.readBulkStrings, Program.finish_bind, finish_readBulkString]
      rcases MiniCache.readBulkString input with error | ⟨data, after⟩
      · rfl
      dsimp only [bind, Except.bind]
      rw [Program.finish_bind, ih]
      rcases MiniCache.readBulkStrings count after with error | ⟨others, left⟩
      · rfl
      · rfl

/-- The coroutine reads from a stream that has ended what the protocol reads. -/
theorem finish_readCommand (input : Bytes) :
    readCommand.finish 10 streamLimit input = MiniCache.readCommand input := by
  unfold readCommand MiniCache.readCommand
  rw [Program.finish_bind, finish_readLine]
  rcases MiniCache.readLine input with error | ⟨line, rest⟩
  · rfl
  simp only [bind, Except.bind]
  split
  · rfl
  · rename_i body
    simp only [Program.finish_bind, Program.finish_ofExcept, Except.bind]
    rcases parseLength body "array length".toList with error | numArgs
    · rfl
    dsimp only
    split_ifs
    · rfl
    · rfl
    simp only [Program.finish_bind, finish_readBulkStrings, Except.bind]
    rcases MiniCache.readBulkStrings numArgs.toNat rest with error | ⟨args, left⟩
    · rfl
    · rfl
  · rename_i header other
    -- the split above may have decided the match of the protocol too
    first
      | rfl
      | split
        · contradiction
        · rename_i same
          exact (other _ (Option.some.inj same)).elim
        · rename_i same
          rw [Option.some.inj same]
          rfl

end Coroutine

section Streams

variable {input left : Bytes} {command : List Bytes}

theorem readCommand_more (done : readCommand input = .ok (some command, left)) (more : Bytes) :
    readCommand (input ++ more) = .ok (some command, left ++ more) := by
  obtain ⟨frame, valid, named, rfl⟩ := readCommand_eq_some_iff.mp done
  exact readCommand_eq_some_iff.mpr ⟨frame, valid, named, List.append_assoc ..⟩

/-- A whole command need not wait for what follows it. -/
theorem resume_readCommand_iff :
    Coroutine.readCommand.resume 10 streamLimit input = (.done (some command), left) ↔
      readCommand input = .ok (some command, left) := by
  constructor
  · intro resumed
    have ends := Program.finish_of_done 10 streamLimit [] resumed
    rwa [List.append_nil, List.append_nil, Coroutine.finish_readCommand] at ends
  · intro done
    obtain ⟨value, unread, resumed⟩ := @Program.done_of_finish _ _ _ _ 10 streamLimit
      Coroutine.readCommand input 0 (by decide) fun more =>
        ⟨_, (Coroutine.finish_readCommand _).trans (readCommand_more done more)⟩
    have ends := Program.finish_of_done 10 streamLimit [] resumed
    rw [List.append_nil, List.append_nil, Coroutine.finish_readCommand, done] at ends
    obtain ⟨rfl, rfl⟩ := Prod.mk.inj (Except.ok.inj ends)
    exact resumed

/-- The bytes break the protocol, whatever the client sends behind them if it still can, and
the payload says so. -/
def Breaks (ended : Bool) (rest payload : Bytes) : Prop :=
  ∃ message, payload = encode (protocolErrorReply message) ∧
    ∀ more, (ended = true → more = []) → readCommand (rest ++ more) = .error (.protocol message)

namespace Peer

variable {peer : Peer} {rest : Bytes}

/-- The task has these bytes before it. -/
def Reads (rest : Bytes) (peer : Peer) : Prop :=
  ∀ more, Coroutine.readCommand.resume 10 streamLimit (rest ++ more) =
    peer.program.resume 10 streamLimit (peer.buffer ++ more)

theorem Reads.finish (reads : peer.Reads rest) (more : Bytes) :
    readCommand (rest ++ more) =
      (peer.program.resume 10 streamLimit peer.buffer).1.finish 10 streamLimit
        ((peer.program.resume 10 streamLimit peer.buffer).2 ++ more) := by
  have here := reads []
  rw [List.append_nil, List.append_nil] at here
  rw [← Coroutine.finish_readCommand, Program.finish_append, here]

theorem Reads.read_eq (reads : peer.Reads rest) :
    peer.read =
      let resumed := peer.program.resume 10 streamLimit peer.buffer
      if resumed.1.waits && !peer.ended then .waits resumed.1 resumed.2
      else .ofResult (readCommand rest) := by
  have whole := reads.finish []
  rw [List.append_nil, List.append_nil] at whole
  rw [whole]
  rfl

/-- The command that the task reads stands in front of these bytes. -/
theorem Reads.of_command (reads : peer.Reads rest)
    (found : peer.read = .command command left) :
    readCommand rest = .ok (some command, left) := by
  rw [reads.read_eq] at found
  dsimp only at found
  split_ifs at found
  rcases done : readCommand rest with (_ | _) | ⟨_ | other, after⟩
  all_goals rw [done] at found; cases found
  rfl

/-- A task that waits has no whole command before it. -/
theorem Reads.of_waits (reads : peer.Reads rest)
    {program : Program UInt8 ReadError (Option (List Bytes))}
    (found : peer.read = .waits program left) :
    ({ peer with program := program, buffer := left }).Reads rest ∧
      ∀ command unread, readCommand rest ≠ .ok (some command, unread) := by
  rw [reads.read_eq] at found
  dsimp only at found
  split_ifs at found with waiting
  · obtain ⟨rfl, rfl⟩ := Reading.waits.inj found
    refine ⟨fun more => ?_, fun command unread done => ?_⟩
    · rw [reads more, Program.resume_append]
    · have resumed := resume_readCommand_iff.mpr done
      have here := reads []
      rw [List.append_nil, List.append_nil, resumed] at here
      rw [← here] at waiting
      simp [Program.waits] at waiting
  · rcases done : readCommand rest with (_ | _) | ⟨_ | other, after⟩
    all_goals rw [done] at found; cases found

/-- Bytes that the task refuses break the protocol. -/
theorem Reads.of_refused (reads : peer.Reads rest) {message : Text}
    (found : peer.read = .refused message) :
    Breaks peer.ended rest (encode (protocolErrorReply message)) := by
  refine ⟨message, rfl, fun more still => ?_⟩
  cases ended : peer.ended with
  | true =>
      obtain rfl := still ended
      rw [reads.read_eq, ended] at found
      dsimp only at found
      rw [Bool.not_true, Bool.and_false, if_neg Bool.false_ne_true] at found
      rw [List.append_nil]
      rcases done : readCommand rest with (_ | _) | ⟨_ | _, _⟩
      all_goals rw [done] at found; cases found
      rfl
  | false =>
      have whole := reads.finish more
      unfold read at found
      rw [ended] at found
      generalize peer.program.resume 10 streamLimit peer.buffer = resumed at whole found
      obtain ⟨program, unread⟩ := resumed
      rcases program with (_ | _) | (_ | _) | _ | _
      all_goals cases found
      exact whole

end Peer

end Streams

end MiniCache
