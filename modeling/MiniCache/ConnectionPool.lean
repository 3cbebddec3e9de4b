import MiniCache.Commands
import Mathlib.Logic.Function.Basic

/-!
# The connection pool of the cluster client

The class `_Pool` of one shard with the requests and pipelines in `ClusterClient._run` and
`_connect`, on a running event loop: every `await` may go on, time out, be cancelled or
fail.  Below them stand the connections with the shard, which answers the commands on a
connection in order, each with one reply, as long as the connection lasts.

The requests take their turns in any order.  History variables, which no turn reads, keep
the slots that a request took and gave back and the replies of the shard.
-/

namespace MiniCache

/-- A command on a connection: the `AUTH` of an attempt of a request, or a command of the
request by its position. -/
inductive Sent
  | auth (request attempt : Nat)
  | command (request attempt position : Nat)
deriving DecidableEq

/-- A reply of the shard, with the command that it answers. -/
structure ShardReply where
  sent : Sent
  value : Value

/-- A connection: the commands that the shard has still to answer and the replies that the
client has still to read; whether it still leads to the shard, and whether the client has
closed its writer. -/
structure Conn where
  unanswered : List Sent
  unread : List ShardReply
  alive : Bool
  closed : Bool

def Conn.opened : Conn := ⟨[], [], true, false⟩

/-- Where a request stands in `_run`: at an `await`, with the connection it uses, or at its
end. -/
inductive Phase
  | absent
  | acquiring
  | connecting
  | authWriting (conn : Nat)
  | authReading (conn : Nat)
  | writing (conn : Nat) (reused : Bool)
  | reading (conn : Nat) (reused : Bool) (replies : List ShardReply)
  | returned (replies : List ShardReply)
  | raised

/-- A request with one command or the commands of a pipeline. -/
structure Request where
  commands : List (List Arg)
  attempt : Nat
  phase : Phase
  taken : Nat
  given : Nat

/-- How an `await` fails: by `asyncio.wait_for`, by a cancellation of the task, or with an
`OSError`, a `ProtocolError` or an `IncompleteReadError`. -/
inductive Failure
  | timeout
  | cancelled
  | broken
deriving DecidableEq

/-- What follows a failure of `op`: another turn of the loop, or the exception. -/
def Phase.afterFailure (reused : Bool) (failure : Failure) : Phase :=
  if reused ∧ failure = .broken then .acquiring else .raised

/-- `_Pool` with its requests and connections. -/
structure ConnectionPool where
  password : Option Text
  slots : Nat
  idle : List Nat
  closed : Bool
  opened : Nat
  connections : Nat → Conn
  requests : Nat → Request
  replies : List ShardReply

/-- A turn of a request, of the shard or of `close`. -/
inductive PoolStep
  | request (number : Nat) (commands : List (List Arg))
  | acquire (number : Nat)
  | connected (number : Nat)
  | authWrite (number : Nat)
  | authReply (number : Nat)
  | write (number : Nat)
  | readReply (number : Nat)
  | finish (number : Nat)
  | fail (number : Nat) (failure : Failure)
  | serve (conn : Nat) (value : Value)
  | drop (conn : Nat) (kept : Nat)
  | close
  | closeIdle

namespace ConnectionPool

/-- `_Pool.__init__`. -/
def init (poolSize : Nat) (password : Option Text) : ConnectionPool where
  password := password
  slots := poolSize
  idle := []
  closed := false
  opened := 0
  connections := fun _ => .opened
  requests := fun _ => ⟨[], 0, .absent, 0, 0⟩
  replies := []

def setRequest (pool : ConnectionPool) (number : Nat) (request : Request) : ConnectionPool :=
  { pool with requests := Function.update pool.requests number request }

def setPhase (pool : ConnectionPool) (number : Nat) (phase : Phase) : ConnectionPool :=
  pool.setRequest number { pool.requests number with phase := phase }

def setConn (pool : ConnectionPool) (conn : Nat) (connection : Conn) :
    ConnectionPool :=
  { pool with connections := Function.update pool.connections conn connection }

/-- `writer.close()`. -/
def closeWriter (pool : ConnectionPool) (conn : Nat) : ConnectionPool :=
  pool.setConn conn { pool.connections conn with closed := true }

/-- `writer.write`; what is written on a lost connection is lost. -/
def send (pool : ConnectionPool) (conn : Nat) (commands : List Sent) : ConnectionPool :=
  let connection := pool.connections conn
  if connection.alive then
    pool.setConn conn { connection with unanswered := connection.unanswered ++ commands }
  else pool

/-- The commands of an attempt, in order. -/
def ownCommands (number : Nat) (request : Request) : List Sent :=
  (List.range request.commands.length).map (Sent.command number request.attempt)

/-- The `finally` of `_run`, on the way to a phase. -/
def leave (pool : ConnectionPool) (number : Nat) (conn : Option Nat) (ok : Bool)
    (phase : Phase) : ConnectionPool :=
  let left := match conn with
    | none => pool
    | some conn =>
        if ok && !pool.closed then { pool with idle := pool.idle ++ [conn] }
        else pool.closeWriter conn
  let request := left.requests number
  { left.setRequest number { request with phase := phase, given := request.given + 1 } with
    slots := left.slots + 1 }

/-- The turn after `pool.slots.acquire()`. -/
def acquire (pool : ConnectionPool) (number : Nat) : ConnectionPool :=
  let request := pool.requests number
  match request.phase with
  | .acquiring =>
      if 0 < pool.slots then
        let entered (phase : Phase) : ConnectionPool :=
          { pool.setRequest number
              { request with
                phase := phase
                attempt := request.attempt + 1
                taken := request.taken + 1 } with
            slots := pool.slots - 1 }
        match pool.idle.getLast? with
        | some conn => { entered (.writing conn true) with idle := pool.idle.dropLast }
        | none => entered .connecting
      else pool
  | _ => pool

/-- `open_connection` returns. -/
def connected (pool : ConnectionPool) (number : Nat) : ConnectionPool :=
  match (pool.requests number).phase with
  | .connecting =>
      let conn := pool.opened
      let phase : Phase := if pool.password.isSome then .authWriting conn else .writing conn false
      { (pool.setConn conn .opened).setPhase number phase with opened := conn + 1 }
  | _ => pool

/-- `_auth` up to the reply. -/
def authWrite (pool : ConnectionPool) (number : Nat) : ConnectionPool :=
  match (pool.requests number).phase with
  | .authWriting conn =>
      (pool.send conn [.auth number (pool.requests number).attempt]).setPhase number
        (.authReading conn)
  | _ => pool

/-- `_auth` gets its reply; an error closes the connection. -/
def authReply (pool : ConnectionPool) (number : Nat) : ConnectionPool :=
  match (pool.requests number).phase with
  | .authReading conn =>
      let connection := pool.connections conn
      match connection.unread with
      | [] => pool
      | reply :: rest =>
          let read := pool.setConn conn { connection with unread := rest }
          if reply.value.isError then (read.closeWriter conn).leave number none false .raised
          else read.setPhase number (.writing conn false)
  | _ => pool

/-- `op` writes its commands. -/
def write (pool : ConnectionPool) (number : Nat) : ConnectionPool :=
  match (pool.requests number).phase with
  | .writing conn reused =>
      (pool.send conn (ownCommands number (pool.requests number))).setPhase number
        (.reading conn reused [])
  | _ => pool

/-- `op` gets a reply. -/
def readReply (pool : ConnectionPool) (number : Nat) : ConnectionPool :=
  match (pool.requests number).phase with
  | .reading conn reused replies =>
      let connection := pool.connections conn
      match connection.unread with
      | [] => pool
      | reply :: rest =>
          if replies.length < (pool.requests number).commands.length then
            (pool.setConn conn { connection with unread := rest }).setPhase number
              (.reading conn reused (replies ++ [reply]))
          else pool
  | _ => pool

/-- `op` returns, with a reply for each of its commands. -/
def finish (pool : ConnectionPool) (number : Nat) : ConnectionPool :=
  match (pool.requests number).phase with
  | .reading conn _ replies =>
      if replies.length = (pool.requests number).commands.length then
        pool.leave number (some conn) true (.returned replies)
      else pool
  | _ => pool

/-- An `await` of `_run` or `_connect` fails.  Waiting for a slot can only be cancelled. -/
def fail (pool : ConnectionPool) (number : Nat) (failure : Failure) : ConnectionPool :=
  match (pool.requests number).phase with
  | .acquiring => if failure = .cancelled then pool.setPhase number .raised else pool
  | .connecting => pool.leave number none false .raised
  | .authWriting conn | .authReading conn =>
      (pool.closeWriter conn).leave number none false .raised
  | .writing conn reused | .reading conn reused _ =>
      pool.leave number (some conn) false (.afterFailure reused failure)
  | _ => pool

/-- The shard applies the next command on a connection and answers it. -/
def serve (pool : ConnectionPool) (conn : Nat) (value : Value) : ConnectionPool :=
  let connection := pool.connections conn
  match connection.alive, connection.unanswered with
  | true, sent :: rest =>
      { pool.setConn conn
          { connection with unanswered := rest, unread := connection.unread ++ [⟨sent, value⟩] } with
        replies := pool.replies ++ [⟨sent, value⟩] }
  | _, _ => pool

/-- A connection is lost, and with it the commands that the shard has not read and all but
some replies. -/
def drop (pool : ConnectionPool) (conn kept : Nat) : ConnectionPool :=
  let connection := pool.connections conn
  pool.setConn conn
    { connection with unanswered := [], unread := connection.unread.take kept, alive := false }

/-- `ClusterClient.close` closes an idle connection. -/
def closeIdle (pool : ConnectionPool) : ConnectionPool :=
  match pool.closed, pool.idle.getLast? with
  | true, some conn => { pool.closeWriter conn with idle := pool.idle.dropLast }
  | _, _ => pool

/-- A call of `_run` begins. -/
def request (pool : ConnectionPool) (number : Nat) (commands : List (List Arg)) :
    ConnectionPool :=
  match (pool.requests number).phase with
  | .absent =>
      pool.setRequest number
        { pool.requests number with commands := commands, phase := .acquiring }
  | _ => pool

def step (pool : ConnectionPool) : PoolStep → ConnectionPool
  | .request number commands => pool.request number commands
  | .acquire number => pool.acquire number
  | .connected number => pool.connected number
  | .authWrite number => pool.authWrite number
  | .authReply number => pool.authReply number
  | .write number => pool.write number
  | .readReply number => pool.readReply number
  | .finish number => pool.finish number
  | .fail number failure => pool.fail number failure
  | .serve conn value => pool.serve conn value
  | .drop conn kept => pool.drop conn kept
  | .close => { pool with closed := true }
  | .closeIdle => pool.closeIdle

/-- A run of the pool. -/
def run (pool : ConnectionPool) (steps : List PoolStep) : ConnectionPool :=
  steps.foldl step pool

end ConnectionPool

end MiniCache
