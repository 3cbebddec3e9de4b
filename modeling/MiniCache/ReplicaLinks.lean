import MiniCache.Server

/-!
# The links of a primary to its replicas

The class `_ReplicaLink` with its queue and its pump task, `_serve_replica`,
`_propagate` and the heartbeat.  The event loop takes one turn after the other: a
command of a client, a heartbeat, a sweep, a turn of a pump, or the end of a link.
Below a link stands the transport of its socket, which sends what is written in order
and drops the rest when the connection is lost.
-/

namespace MiniCache

def REPLICA_BACKLOG_LIMIT : Nat := 64 * 1024 * 1024

/-- The transport of a socket: what is still to be sent and what has been sent. -/
structure Transport where
  buffer : Bytes
  sent : Bytes
  closing : Bool
  lost : Bool
deriving DecidableEq

namespace Transport

def init : Transport := ⟨[], [], false, false⟩

def write (transport : Transport) (payload : Bytes) : Transport :=
  if transport.lost then transport
  else { transport with buffer := transport.buffer ++ payload }

/-- The socket takes some bytes. -/
def flush (transport : Transport) (count : Nat) : Transport :=
  { transport with
    buffer := transport.buffer.drop count
    sent := transport.sent ++ transport.buffer.take count }

def lose (transport : Transport) : Transport := { transport with buffer := [], lost := true }

end Transport

/-- Where the task `_pump` stands: before a payload, after writing one of some size, or
at its end. -/
inductive Pump
  | getting
  | draining (size : Nat)
  | ended
deriving DecidableEq

/-- `_ReplicaLink`.  What the pump has written is kept as history. -/
structure ReplicaLink where
  limit : Nat
  closed : Bool
  queue : List Bytes
  pending : Nat
  pump : Pump
  cancelled : Bool
  transport : Transport
  written : List Bytes

namespace ReplicaLink

/-- `_ReplicaLink.__init__`. -/
def init (limit : Nat) : ReplicaLink := ⟨limit, false, [], 0, .getting, false, .init, []⟩

/-- What `_ReplicaLink.close` does in either task. -/
def shut (link : ReplicaLink) : ReplicaLink :=
  { link with closed := true, transport := { link.transport with closing := true } }

/-- `_ReplicaLink.close` in another task than the pump, which is cancelled. -/
def close (link : ReplicaLink) : ReplicaLink :=
  if link.closed then link else { link.shut with cancelled := true }

/-- `_ReplicaLink.send`. -/
def send (link : ReplicaLink) (payload : Bytes) (force : Bool) : ReplicaLink :=
  if link.closed then link
  else
    let counted := { link with pending := link.pending + payload.length }
    if counted.limit < counted.pending ∧ force = false then counted.close
    else { counted with queue := counted.queue ++ [payload] }

/-- The end of `_pump`, which closes the link. -/
def endPump (link : ReplicaLink) : ReplicaLink :=
  let ended := { link with pump := .ended }
  if ended.closed then ended else ended.shut

/-- A turn of `_pump`: a cancelled task ends at the next turn it gets. -/
def pumpTurn (link : ReplicaLink) : ReplicaLink :=
  match link.pump with
  | .ended => link
  | .getting =>
      if link.cancelled then link.endPump
      else
        match link.queue with
        | [] => link
        | payload :: rest =>
            { link with
              queue := rest
              pump := .draining payload.length
              transport := link.transport.write payload
              written := link.written ++ [payload] }
  | .draining size =>
      if link.cancelled then link.endPump
      else { link with pump := .getting, pending := link.pending - size }

/-- A turn of `_pump` in which the socket raises an error. -/
def pumpFails (link : ReplicaLink) : ReplicaLink :=
  match link.pump with
  | .ended => link
  | .getting | .draining _ => link.endPump

def flush (link : ReplicaLink) (count : Nat) : ReplicaLink :=
  { link with transport := link.transport.flush count }

def lose (link : ReplicaLink) : ReplicaLink := { link with transport := link.transport.lose }

/-- Every payload that was ever put on the queue. -/
def queued (link : ReplicaLink) : List Bytes := link.written ++ link.queue

end ReplicaLink

/-- A server with every link it ever made and the set of those in use. -/
structure Primary where
  server : Server
  links : List ReplicaLink
  replicas : List Nat

/-- A turn of the event loop. -/
inductive LinkStep
  | command (clock : Clock) (authed : Bool) (command : List Bytes)
  | heartbeat
  | sweep (clock : Clock)
  | pump (link : Nat)
  | pumpFails (link : Nat)
  | flush (link count : Nat)
  | lose (link : Nat)
  | close (link : Nat)

namespace Primary

def init (server : Server) : Primary := ⟨server, [], []⟩

/-- A method of a link, with `self._on_close`, which discards a link that closes. -/
def update (primary : Primary) (number : Nat) (method : ReplicaLink → ReplicaLink) : Primary :=
  match primary.links[number]? with
  | none => primary
  | some link =>
      { primary with
        links := primary.links.set number (method link)
        replicas :=
          if (method link).closed && !link.closed then primary.replicas.filter (· ≠ number)
          else primary.replicas }

/-- `Server._propagate`. -/
def propagate (primary : Primary) (command : List Arg) : Primary :=
  primary.replicas.foldl
    (fun primary number => primary.update number (·.send (encodeCommand command) false)) primary

/-- `Server._serve_replica` up to the loop that waits for the end of the link. -/
def serveReplica (primary : Primary) (clock : Clock) : Primary :=
  let snapshot := buildSnapshotCommands clock primary.server.store
  let link := ([Arg.ofString "FLUSHDB"] :: snapshot.1).foldl
    (fun link command => link.send (encodeCommand command) true)
    (ReplicaLink.init REPLICA_BACKLOG_LIMIT)
  { server := { primary.server with store := snapshot.2 }
    links := primary.links ++ [link]
    replicas := primary.replicas ++ [primary.links.length] }

/-- The turn of the loop for a command; the server counts its replicas. -/
def turn (primary : Primary) (clock : Clock) (authed : Bool) (command : List Bytes) : Turn :=
  { primary.server with replicas := primary.replicas.length }.handle clock authed command

/-- The commands that a turn hands to `_propagate`. -/
def propagatedBy (primary : Primary) : LinkStep → List (List Arg)
  | .command clock authed command => (primary.turn clock authed command).propagated
  | .heartbeat => [[.ofString "PING"]]
  | _ => []

def step (primary : Primary) : LinkStep → Primary
  | .command clock authed command =>
      let turn := primary.turn clock authed command
      let served := { primary with server := turn.server }
      match turn.next with
      | .syncing => served.serveReplica clock
      | _ => turn.propagated.foldl propagate served
  | .heartbeat => primary.propagate [.ofString "PING"]
  | .sweep clock => { primary with server := primary.server.sweepTurn clock }
  | .pump number => primary.update number (·.pumpTurn)
  | .pumpFails number => primary.update number (·.pumpFails)
  | .flush number count => primary.update number (·.flush count)
  | .lose number => primary.update number (·.lose)
  | .close number => primary.update number (·.close)

def run (primary : Primary) (steps : List LinkStep) : Primary := steps.foldl step primary

/-- The commands that a run hands to `_propagate`, in order. -/
def propagatedDuring (primary : Primary) : List LinkStep → List (List Arg)
  | [] => []
  | step :: rest => primary.propagatedBy step ++ (primary.step step).propagatedDuring rest

end Primary

end MiniCache
