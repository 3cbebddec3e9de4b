import MiniCache.Commands

/-!
# The append-only file

Which commands are logged and in what form, and the replay of a log.  The log
is the content of a file; a replay reads it command by command, dispatches each,
and cuts off what it cannot read, keeping a copy of that tail in a second file.
-/

namespace MiniCache

section Numbers

/-- `int(number)` on a float: towards zero. -/
def truncateToInt (number : Time) : Int :=
  if 0 ≤ number then ⌊number⌋ else ⌈number⌉

/-- `round(number)`: to the nearest integer, a tie to the even one. -/
def roundToEven (number : Time) : Int :=
  if number - ⌊number⌋ < 1 / 2 then ⌊number⌋
  else if 1 / 2 < number - ⌊number⌋ then ⌊number⌋ + 1
  else if ⌊number⌋ % 2 = 0 then ⌊number⌋
  else ⌊number⌋ + 1

theorem abs_truncateToInt_sub (number : Time) : |(truncateToInt number : Time) - number| < 1 := by
  rw [abs_lt]
  unfold truncateToInt
  have floorLe := Int.floor_le number
  have ltFloor := Int.lt_floor_add_one number
  have leCeil := Int.le_ceil number
  have ceilLt := Int.ceil_lt_add_one number
  split_ifs <;> constructor <;> linarith

theorem abs_roundToEven_sub (number : Time) :
    |(roundToEven number : Time) - number| ≤ 1 / 2 := by
  rw [abs_le]
  unfold roundToEven
  have floorLe := Int.floor_le number
  have ltFloor := Int.lt_floor_add_one number
  split_ifs <;> push_cast <;> constructor <;> linarith

@[simp]
theorem roundToEven_intCast (number : Int) : roundToEven (number : Time) = number := by
  simp [roundToEven]

end Numbers

def WRITE_COMMANDS : List Text :=
  ["SET".toList, "MSET".toList, "DEL".toList, "INCR".toList, "DECR".toList,
    "INCRBY".toList, "DECRBY".toList, "EXPIRE".toList, "PEXPIRE".toList,
    "PEXPIREAT".toList, "PERSIST".toList, "FLUSHDB".toList]

/-- `is_write_command`. -/
def isWriteCommand (name : Text) : Bool := upper name ∈ WRITE_COMMANDS

/-- `_deadline_ms`. -/
def deadlineMs (now seconds : Time) : Int := roundToEven ((now + seconds) * 1000)

/-- A text argument given by a literal. -/
def Arg.ofString (literal : String) : Arg := .str literal.toList

/-- `str(number)` as an argument. -/
def Arg.ofInt (number : Int) : Arg := .str (intText number)

/-- The record that gives a key an absolute deadline. -/
def deadlineRecord (key : Arg) (deadline : Int) : List Arg :=
  [.ofString "PEXPIREAT", key, .ofInt deadline]

/-- The number in an argument of an accepted `EXPIRE` or `PEXPIRE`, which is an
integer literal for `int` and `float` alike. -/
def loggedNumber (arg : Arg) : Except Raised Int :=
  match intOfText (toText arg) with
  | none => .error (.valueError "could not convert string to a number".toList)
  | some number => .ok number

/-- `to_aof_commands`. -/
def toAofCommands (now : Time) (command : List Arg) : Except Raised (List (List Arg)) :=
  match command with
  | [] => .ok []
  | head :: args =>
      let name := upper (toText head)
      if name = "SET".toList then
        match parseSet args with
        | .error _ => .ok [command]
        | .ok opts =>
            let setCommand := [.ofString "SET", opts.key, opts.value]
            match opts.ttl with
            | none => .ok [setCommand]
            | some ttl => .ok [setCommand, deadlineRecord opts.key (deadlineMs now ttl)]
      else if name = "EXPIRE".toList then
        match args with
        | [key, amount] =>
            match loggedNumber amount with
            | .error raised => .error raised
            | .ok seconds => .ok [deadlineRecord key (deadlineMs now seconds)]
        | _ => .ok [command]
      else if name = "PEXPIRE".toList then
        match args with
        | [key, amount] =>
            match loggedNumber amount with
            | .error raised => .error raised
            | .ok milliseconds =>
                .ok [deadlineRecord key (truncateToInt (now * 1000) + milliseconds)]
        | _ => .ok [command]
      else .ok [command]

section Replay

/-- The log and the file beside it that keeps a tail cut off. -/
structure AofFile where
  content : Bytes
  corrupt : Option Bytes
deriving DecidableEq

/-- `AOFLog.append`, as far as the file goes. -/
def AofFile.append (file : AofFile) (command : List Arg) : AofFile :=
  { file with content := file.content ++ encodeCommand command }

/-- `file.truncate(size)`, which fills up with zeros past the end. -/
def truncate (content : Bytes) (size : Nat) : Bytes :=
  content.take size ++ List.replicate (size - content.length) 0

/-- `AOFLog._discard_tail`. -/
def AofFile.discardTail (file : AofFile) (good : Nat) : AofFile where
  content := truncate file.content good
  corrupt := some (file.content.drop good)

/-- Where a replay stands: the store, the commands applied so far and the bytes
their encodings take. -/
structure ReplayState where
  store : Store
  count : Nat
  good : Nat

/-- How the reading of a log ends. -/
inductive ReplayEnd
  | finished
  | stopped (error : ReadError)
  | raised (raised : Raised)
deriving DecidableEq

/-- The arguments of a command that was read. -/
def received (command : List Bytes) : List Arg := command.map .bytes

/-- The loop of `AOFLog.replay`; every turn reads at least one byte. -/
def replayLoop (clock : Clock) : Nat → Bytes → ReplayState → ReplayState × ReplayEnd
  | 0, _, state => (state, .finished)
  | fuel + 1, input, state =>
      match readCommand input with
      | .error error => (state, .stopped error)
      | .ok (none, _) => (state, .finished)
      | .ok (some command, rest) =>
          let good := state.good + (encodeCommand (received command)).length
          if command = [] then
            replayLoop clock fuel rest { state with good := good }
          else
            match dispatch clock state.store (received command) with
            | (.error raised, store) => (⟨store, state.count, good⟩, .raised raised)
            | (.ok _, store) => replayLoop clock fuel rest ⟨store, state.count + 1, good⟩

/-- `AOFLog.replay`: the number of commands applied, or the exception that a
command let pass, with the store and the files left. -/
def replay (clock : Clock) (store : Store) (file : AofFile) :
    Except Raised Nat × Store × AofFile :=
  if file.content = [] then (.ok 0, store, file)
  else
    let outcome := replayLoop clock (file.content.length + 1) file.content ⟨store, 0, 0⟩
    match outcome.2 with
    | .raised raised => (.error raised, outcome.1.store, file)
    | .finished => (.ok outcome.1.count, outcome.1.store.drainEvictions.2, file)
    | .stopped _ =>
        (.ok outcome.1.count, outcome.1.store.drainEvictions.2,
          file.discardTail outcome.1.good)

end Replay

end MiniCache
