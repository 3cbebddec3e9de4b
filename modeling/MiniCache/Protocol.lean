import MiniCache.PythonText

/-!
# The wire protocol

Encoding of replies and commands, and the reading of commands from a stream.
A stream is the list of bytes still to come, with the end of the file after
them; every reader returns what it read together with the bytes left.
-/

namespace MiniCache

def CRLF : Bytes := [13, 10]

def MAX_BULK_LENGTH : Nat := 64 * 1024 * 1024

def MAX_ARRAY_LENGTH : Nat := 1024 * 1024

/-- The line limit of an `asyncio.StreamReader`. -/
def streamLimit : Nat := 2 ^ 16

/-- A reply, or a command as a list of arguments. -/
inductive Value
  | simpleString (text : Text)
  | error (text : Text)
  | bool (flag : Bool)
  | int (number : Int)
  | null
  | arg (data : Arg)
  | list (items : List Value)

/-- How reading fails: with a `ProtocolError` or an `IncompleteReadError`. -/
inductive ReadError
  | protocol (message : Text)
  | incomplete
deriving DecidableEq

/-- `str(number).encode("ascii")`. -/
def intBytes (number : Int) : Bytes := encodeUtf8 (intText number)

section Encode

/-- A bulk string on the wire. -/
def encodeBulk (data : Bytes) : Bytes :=
  36 :: intBytes data.length ++ CRLF ++ data ++ CRLF

mutual

/-- `encode`. -/
def encode : Value → Bytes
  | .simpleString text => 43 :: encodeUtf8 text ++ CRLF
  | .error text => 45 :: encodeUtf8 text ++ CRLF
  | .bool flag => 58 :: (if flag then [49] else [48]) ++ CRLF
  | .int number => 58 :: intBytes number ++ CRLF
  | .null => 36 :: [45, 49] ++ CRLF
  | .arg (.bytes data) => encodeBulk data
  | .arg (.str text) => encodeBulk (encodeUtf8 text)
  | .list items => 42 :: intBytes items.length ++ CRLF ++ encodeAll items

def encodeAll : List Value → Bytes
  | [] => []
  | item :: items => encode item ++ encodeAll items

end

/-- `encode` of a command. -/
def encodeCommand (command : List Arg) : Bytes :=
  encode (.list (command.map .arg))

end Encode

section Repr

/-- One byte in the `repr` of a `bytes` object quoted with `quote`. -/
def reprByte (quote : Char) (byte : UInt8) : Text :=
  let char := Char.ofNat byte.toNat
  if char = quote ∨ char = '\\' then ['\\', char]
  else if char = '\t' then ['\\', 't']
  else if char = '\n' then ['\\', 'n']
  else if char = '\r' then ['\\', 'r']
  else if byte < 0x20 ∨ 0x7F ≤ byte then
    ['\\', 'x', Nat.digitChar (byte.toNat / 16), Nat.digitChar (byte.toNat % 16)]
  else [char]

/-- `repr(data)`. -/
def reprBytes (data : Bytes) : Text :=
  let quote := if (39 : UInt8) ∈ data ∧ (34 : UInt8) ∉ data then '"' else '\''
  'b' :: quote :: data.flatMap (reprByte quote) ++ [quote]

end Repr

section Read

/-- `StreamReader.readline` on a stream that has ended; `none` stands for the
`ValueError` of a line over the limit. -/
def readline (input : Bytes) : Option (Bytes × Bytes) :=
  let line := input.takeWhile (· ≠ 10)
  match input.dropWhile (· ≠ 10) with
  | [] => if streamLimit < line.length then none else some (line, [])
  | feed :: rest =>
      if streamLimit < line.length then none else some (line ++ [feed], rest)

/-- `StreamReader.readexactly`. -/
def readexactly (count : Nat) (input : Bytes) : Except ReadError (Bytes × Bytes) :=
  if input.length < count then .error .incomplete
  else .ok (input.take count, input.drop count)

/-- `_read_line`. -/
def readLine (input : Bytes) : Except ReadError (Option Bytes × Bytes) :=
  match readline input with
  | none => .error (.protocol "line too long".toList)
  | some ([], rest) => .ok (none, rest)
  | some (raw, rest) =>
      if CRLF <:+ raw then .ok (some (raw.take (raw.length - 2)), rest)
      else .error (.protocol ("line not CRLF-terminated: ".toList ++ reprBytes raw))

/-- `_parse_int` of the protocol. -/
def parseLength (data : Bytes) (what : Text) : Except ReadError Int :=
  match intOfBytes data with
  | none => .error (.protocol ("invalid ".toList ++ what ++ ": ".toList ++ reprBytes data))
  | some number => .ok number

/-- `_check_bulk_length`. -/
def checkBulkLength (length : Int) : Except ReadError Unit :=
  if length < -1 ∨ (MAX_BULK_LENGTH : Int) < length then
    .error (.protocol ("invalid bulk string length: ".toList ++ intText length))
  else
    .ok ()

/-- `_read_bulk_string`. -/
def readBulkString (input : Bytes) : Except ReadError (Bytes × Bytes) := do
  let (header, input) ← readLine input
  match header with
  | none => .error (.protocol "unexpected EOF reading bulk string header".toList)
  | some (36 :: body) =>
      let length ← parseLength body "bulk string length".toList
      checkBulkLength length
      if length = -1 then
        .ok ([], input)
      else
        let (data, input) ← readexactly length.toNat input
        let (trailer, input) ← readexactly 2 input
        if trailer = CRLF then .ok (data, input)
        else .error (.protocol "bulk string missing trailing CRLF".toList)
  | some header =>
      .error (.protocol ("expected bulk string, got: ".toList ++ reprBytes header))

/-- The loop over the arguments of a command. -/
def readBulkStrings : Nat → Bytes → Except ReadError (List Bytes × Bytes)
  | 0, input => .ok ([], input)
  | count + 1, input => do
      let (data, input) ← readBulkString input
      let (rest, input) ← readBulkStrings count input
      .ok (data :: rest, input)

/-- White space of `bytes.split`. -/
def isByteSpace (byte : UInt8) : Bool := byte = 32 || (9 ≤ byte && byte ≤ 13)

/-- `line.split()`. -/
def splitLine (line : Bytes) : List Bytes :=
  (line.splitOnP isByteSpace).filter (· ≠ [])

/-- `read_command`: a command, or nothing at the end of the stream. -/
def readCommand (input : Bytes) : Except ReadError (Option (List Bytes) × Bytes) := do
  let (line, input) ← readLine input
  match line with
  | none => .ok (none, input)
  | some (42 :: body) =>
      let numArgs ← parseLength body "array length".toList
      if numArgs < 0 then
        .ok (some [], input)
      else if (MAX_ARRAY_LENGTH : Int) < numArgs then
        .error (.protocol ("array length too large: ".toList ++ intText numArgs))
      else
        let (args, input) ← readBulkStrings numArgs.toNat input
        .ok (some args, input)
  | some line => .ok (some (splitLine line), input)

/-- The elements of an array, each read by the same reader. -/
def readMany {α : Type} (read : Bytes → Except ReadError (α × Bytes)) :
    Nat → Bytes → Except ReadError (List α × Bytes)
  | 0, input => .ok ([], input)
  | count + 1, input => do
      let (item, input) ← read input
      let (rest, input) ← readMany read count input
      .ok (item :: rest, input)

/-- `read_reply`, for replies nested less deep than the fuel. -/
def readReplyWith : Nat → Bytes → Except ReadError (Value × Bytes)
  | 0, _ => .error .incomplete
  | fuel + 1, input => do
      let (line, input) ← readLine input
      match line with
      | none => .error (.protocol "unexpected EOF reading reply".toList)
      | some [] => .error (.protocol "empty reply line".toList)
      | some (43 :: body) => .ok (.arg (.str (decodeUtf8 body)), input)
      | some (45 :: body) => .ok (.error (decodeUtf8 body), input)
      | some (58 :: body) =>
          let number ← parseLength body "integer reply".toList
          .ok (.int number, input)
      | some (36 :: body) =>
          let length ← parseLength body "bulk string length".toList
          checkBulkLength length
          if length = -1 then
            .ok (.null, input)
          else
            let (data, input) ← readexactly length.toNat input
            let (_, input) ← readexactly 2 input
            .ok (.arg (.bytes data), input)
      | some (42 :: body) =>
          let count ← parseLength body "array length".toList
          if count = -1 then
            .ok (.null, input)
          else if count < 0 ∨ (MAX_ARRAY_LENGTH : Int) < count then
            .error (.protocol ("invalid array length: ".toList ++ intText count))
          else
            let (items, input) ← readMany (readReplyWith fuel) count.toNat input
            .ok (.list items, input)
      | some line => .error (.protocol ("unknown reply type: ".toList ++ reprBytes line))

/-- `read_reply`: every level of nesting takes up at least one byte. -/
def readReply (input : Bytes) : Except ReadError (Value × Bytes) :=
  readReplyWith (input.length + 1) input

end Read

end MiniCache
