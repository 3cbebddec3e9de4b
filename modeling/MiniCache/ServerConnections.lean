import MiniCache.AuthGate
import MiniCache.StreamPrograms

/-!
# The connections of the server

`Server._handle_client` for every client at once.  The bytes of a client come in pieces of any
size; the task of a connection reads them as coroutines do, executes a command in one turn of
the event loop and sends the reply in another, since the log may have to be written first.
-/

namespace MiniCache

open StreamProgram (Program)

namespace Coroutine

/-- `_read_line`. -/
def readLine : Program UInt8 ReadError (Option Bytes) :=
  .readline (.protocol "line too long".toList) fun raw =>
    if raw = [] then .done none
    else if CRLF <:+ raw then .done (some (raw.take (raw.length - 2)))
    else .fail (.protocol ("line not CRLF-terminated: ".toList ++ reprBytes raw))

/-- `StreamReader.readexactly`. -/
def readexactly (count : Nat) : Program UInt8 ReadError Bytes :=
  .readexactly count .incomplete .done

/-- `_read_bulk_string`. -/
def readBulkString : Program UInt8 ReadError Bytes :=
  readLine.bind fun header =>
    match header with
    | none => .fail (.protocol "unexpected EOF reading bulk string header".toList)
    | some (36 :: body) =>
        (Program.ofExcept (parseLength body "bulk string length".toList)).bind fun length =>
          (Program.ofExcept (checkBulkLength length)).bind fun _ =>
            if length = -1 then .done []
            else (readexactly length.toNat).bind fun data =>
              (readexactly 2).bind fun trailer =>
                if trailer = CRLF then .done data
                else .fail (.protocol "bulk string missing trailing CRLF".toList)
    | some header =>
        .fail (.protocol ("expected bulk string, got: ".toList ++ reprBytes header))

/-- The loop over the arguments of a command. -/
def readBulkStrings : Nat → Program UInt8 ReadError (List Bytes)
  | 0 => .done []
  | count + 1 => readBulkString.bind fun data =>
      (readBulkStrings count).bind fun rest => .done (data :: rest)

/-- `read_command`. -/
def readCommand : Program UInt8 ReadError (Option (List Bytes)) :=
  readLine.bind fun line =>
    match line with
    | none => .done none
    | some (42 :: body) =>
        (Program.ofExcept (parseLength body "array length".toList)).bind fun numArgs =>
          if numArgs < 0 then .done (some [])
          else if (MAX_ARRAY_LENGTH : Int) < numArgs then
            .fail (.protocol ("array length too large: ".toList ++ intText numArgs))
          else (readBulkStrings numArgs.toNat).bind fun args => .done (some args)
    | some line => .done (some (splitLine line))

end Coroutine

/-- Where the task of a connection is; before the loop takes a new connection nothing is done
about it, and a connection over the limit is rejected. -/
inductive Stage
  | waiting
  | rejected
  | reading
  | sending (payload : Bytes) (next : Next)
  | replica
  | finished
deriving DecidableEq

/-- The connection counts as a client. -/
def Stage.Active : Stage → Prop
  | .reading | .sending .. | .replica => True
  | .waiting | .rejected | .finished => False

instance (phase : Stage) : Decidable phase.Active :=
  match phase with
  | .reading | .sending .. | .replica => inferInstanceAs (Decidable True)
  | .waiting | .rejected | .finished => inferInstanceAs (Decidable False)

/-- A connection: where its task is and what it is about to read, what has come that was not
read, whether the client has stopped sending, and what the loop has sent it; the stream that a
replica is sent is not part of this.  All that has come is kept as history. -/
structure Peer where
  phase : Stage
  program : Program UInt8 ReadError (Option (List Bytes))
  buffer : Bytes
  ended : Bool
  authed : Bool
  sent : Bytes
  received : Bytes

def Peer.fresh : Peer := ⟨.waiting, Coroutine.readCommand, [], false, false, [], []⟩

/-- What a task that reads comes to. -/
inductive Reading
  | command (command : List Bytes) (left : Bytes)
  | waits (program : Program UInt8 ReadError (Option (List Bytes))) (left : Bytes)
  | ends
  | refused (message : Text)

namespace Reading

/-- A stream that breaks off ends the connection, and so does a protocol error, which is
reported. -/
def ofError : ReadError → Reading
  | .protocol message => .refused message
  | .incomplete => .ends

def ofResult : Except ReadError (Option (List Bytes) × Bytes) → Reading
  | .ok (some found, left) => .command found left
  | .ok (none, _) => .ends
  | .error error => .ofError error

end Reading

namespace Peer

/-- The task goes on reading. -/
def read (peer : Peer) : Reading :=
  let resumed := peer.program.resume 10 streamLimit peer.buffer
  if resumed.1.waits && !peer.ended then .waits resumed.1 resumed.2
  else .ofResult (resumed.1.finish 10 streamLimit resumed.2)

/-- Bytes of the client come. -/
def arrive (data : Bytes) (peer : Peer) : Peer :=
  if peer.ended then peer
  else { peer with buffer := peer.buffer ++ data, received := peer.received ++ data }

end Peer

/-- `_protocol_error_reply`. -/
def protocolErrorReply (message : Text) : Value := .error ("ERR Protocol error: ".toList ++ message)

/-- Where a task is after a turn: what the loop raises ends the connection, and an empty
command is not answered. -/
def Turn.phase (turn : Turn) : Stage :=
  match turn.next with
  | .raised _ => .finished
  | .syncing => .replica
  | .closed => .sending (turn.replies.flatMap encode) .closed
  | .again =>
      if turn.replies = [] then .reading else .sending (turn.replies.flatMap encode) .again

/-- The server with its connections.  The commands that were executed are kept as history. -/
structure Network (ι : Type) where
  server : Server
  peers : ι → Peer
  visits : List (ι × Visit)

/-- What happens: a connection is taken by the loop, bytes of a client come, a client stops
sending, a task reads on, it sends what it owes, a connection fails, times out or is cancelled,
or the store is swept. -/
inductive NetworkEvent (ι : Type)
  | connect (who : ι)
  | arrive (who : ι) (data : Bytes)
  | eof (who : ι)
  | turn (who : ι)
  | send (who : ι)
  | drop (who : ι)
  | sweep
deriving DecidableEq

namespace Network

variable {ι : Type} [DecidableEq ι]

def start (server : Server) : Network ι := ⟨server, fun _ => .fresh, []⟩

/-- A task is in a new place; when it ends, the `finally` counts the client out. -/
def place (who : ι) (peer : Peer) (network : Network ι) : Network ι :=
  { network with
    server :=
      if peer.phase = .finished then
        { network.server with clientCount := network.server.clientCount - 1 }
      else network.server
    peers := Function.update network.peers who peer }

/-- The head of `_handle_client`. -/
def connect (who : ι) (network : Network ι) : Network ι :=
  let peer := network.peers who
  let server : Server :=
    { network.server with connectionsReceived := network.server.connectionsReceived + 1 }
  if peer.phase = .waiting then
    if server.maxclients ≠ 0 ∧ server.maxclients ≤ server.clientCount then
      let refusal := encode (errorReply "ERR max number of clients reached")
      { network with
        server := { server with rejectedConnections := server.rejectedConnections + 1 }
        peers := Function.update network.peers who
          { peer with phase := .rejected, sent := refusal } }
    else
      { network with
        server := { server with clientCount := server.clientCount + 1 }
        peers := Function.update network.peers who
          { peer with phase := .reading, authed := server.requirepass.isNone } }
  else network

/-- A turn of the loop of `_handle_client`. -/
def turn (clock : Clock) (who : ι) (network : Network ι) : Network ι :=
  let peer := network.peers who
  if peer.phase = .reading then
    match peer.read with
    | .command command left =>
        let turn := network.server.handle clock peer.authed command
        let served : Network ι :=
          { network with
            server := turn.server
            visits := network.visits ++ [(who, ⟨clock, network.server, command⟩)] }
        served.place who
          { peer with
            phase := turn.phase, program := Coroutine.readCommand, buffer := left
            authed := turn.authed }
    | .waits program left => network.place who { peer with program := program, buffer := left }
    | .ends => network.place who { peer with phase := .finished }
    | .refused message => network.place who
        { peer with phase := .sending (encode (protocolErrorReply message)) .closed }
  else network

/-- What is owed is sent. -/
def send (who : ι) (network : Network ι) : Network ι :=
  let peer := network.peers who
  match peer.phase with
  | .sending payload next => network.place who
      { peer with
        sent := peer.sent ++ payload, phase := if next = .again then .reading else .finished }
  | _ => network

/-- A connection that is being served fails. -/
def drop (who : ι) (network : Network ι) : Network ι :=
  let peer := network.peers who
  if peer.phase.Active then network.place who { peer with phase := .finished } else network

def step (clock : Clock) (event : NetworkEvent ι) (network : Network ι) : Network ι :=
  match event with
  | .connect who => network.connect who
  | .arrive who data =>
      { network with peers := Function.update network.peers who ((network.peers who).arrive data) }
  | .eof who =>
      { network with
        peers := Function.update network.peers who { network.peers who with ended := true } }
  | .turn who => network.turn clock who
  | .send who => network.send who
  | .drop who => network.drop who
  | .sweep => { network with server := network.server.sweepTurn clock }

def run (network : Network ι) (events : List (Clock × NetworkEvent ι)) : Network ι :=
  events.foldl (fun network event => network.step event.1 event.2) network

/-- The commands of a client that were executed. -/
def visitsOf (who : ι) (network : Network ι) : List Visit :=
  (network.visits.filter (·.1 = who)).map Prod.snd

end Network

end MiniCache
