import MiniCache.Replication

/-!
# The server loop

One turn of the loop that serves a client: the special commands, the gates for
authentication, replicas and memory, the dispatch, and the logging and the
propagation of what was written.
-/

namespace MiniCache

/-- The append-only file of a running server. -/
structure AofLog where
  content : Bytes
  rewrites : Nat
  rewriting : Bool
deriving DecidableEq

structure Server where
  store : Store
  replicaOf : Option (Text × Nat)
  linkUp : Bool
  aof : Option AofLog
  requirepass : Option Text
  replicas : Nat
  boundPort : Nat
  startTime : Option Time
  maxclients : Nat
  clientCount : Nat
  connectionsReceived : Nat
  rejectedConnections : Nat
  commandsProcessed : Nat

def DEFAULT_PORT : Nat := 6380

def DEFAULT_MAXCLIENTS : Nat := 10000

/-- `Server.__init__` with the options that matter to the store, where the log, if
there is one, has been opened; a replica takes no memory limit. -/
def Server.init (maxmemory : Nat) (policy : Policy) (replicaOf : Option (Text × Nat))
    (aof : Option AofLog) : Server where
  store := Store.init (if replicaOf.isSome then 0 else maxmemory) policy
  replicaOf := replicaOf
  linkUp := false
  aof := aof
  requirepass := none
  replicas := 0
  boundPort := DEFAULT_PORT
  startTime := none
  maxclients := DEFAULT_MAXCLIENTS
  clientCount := 0
  connectionsReceived := 0
  rejectedConnections := 0
  commandsProcessed := 0

/-- An empty log. -/
def AofLog.empty : AofLog := ⟨[], 0, false⟩

/-- What the loop does after a turn. -/
inductive Next
  | again
  | closed
  | syncing
  | raised (raised : Raised)
deriving DecidableEq

/-- What a turn leaves: the server, whether the client is authenticated, the
commands handed to the replicas and the replies sent. -/
structure Turn where
  server : Server
  authed : Bool
  propagated : List (List Arg)
  replies : List Value
  next : Next

def DENYOOM : List Text :=
  ["SET".toList, "MSET".toList, "INCR".toList, "DECR".toList, "INCRBY".toList,
    "DECRBY".toList]

def errorReply (message : String) : Value := .error message.toList

namespace Server

/-- `Server._check_auth`. -/
def checkAuth (server : Server) (args : List Bytes) : Value :=
  match server.requirepass with
  | none => errorReply "ERR AUTH called without any password configured"
  | some requirepass =>
      if args.length ≠ 1 ∧ args.length ≠ 2 then
        errorReply "ERR wrong number of arguments for 'AUTH' command"
      else if args.length = 2 ∧ args.head? ≠ some (encodeUtf8 "default".toList) then
        errorReply "WRONGPASS invalid username-password pair"
      else if args.getLast? = some (encodeUtf8 requirepass) then OK
      else errorReply "WRONGPASS invalid username-password pair"

/-- A line of `INFO`. -/
def infoLine (label : String) (number : Int) : Text := label.toList ++ intText number

def policyName : Policy → Text
  | .allkeysLru => "allkeys-lru".toList
  | .noeviction => "noeviction".toList

/-- `Server._build_info`; counting the keys sweeps the store. -/
def buildInfo (clock : Clock) (server : Server) : Text × Server :=
  let store := server.store
  let uptime : Int := match server.startTime with
    | none => 0
    | some startTime =>
        if startTime = 0 then 0 else truncateToInt (clock.monotonic - startTime)
  let counted := store.len clock.monotonic
  let lines : List Text :=
    ["# Server".toList, infoLine "tcp_port:" server.boundPort,
      infoLine "uptime_in_seconds:" uptime, "# Clients".toList,
      infoLine "connected_clients:" server.clientCount,
      infoLine "maxclients:" server.maxclients, "# Memory".toList,
      infoLine "used_memory:" store.usedMemory, infoLine "maxmemory:" store.maxmemory,
      "maxmemory_policy:".toList ++ policyName store.policy, "# Stats".toList,
      infoLine "total_connections_received:" server.connectionsReceived,
      infoLine "rejected_connections:" server.rejectedConnections,
      infoLine "total_commands_processed:" server.commandsProcessed,
      infoLine "keyspace_hits:" store.hits, infoLine "keyspace_misses:" store.misses,
      infoLine "expired_keys:" store.expiredKeys,
      infoLine "evicted_keys:" store.evictedKeys, "# Replication".toList,
      "role:".toList ++
        (if server.replicaOf.isSome then "replica".toList else "master".toList),
      infoLine "connected_replicas:" server.replicas] ++
    (match server.replicaOf with
      | none => []
      | some (host, port) =>
          ["master_host:".toList ++ host, infoLine "master_port:" port,
            "master_link_status:".toList ++
              (if server.linkUp then "up".toList else "down".toList)]) ++
    ["# Persistence".toList, infoLine "aof_enabled:" (if server.aof.isSome then 1 else 0)] ++
    (match server.aof with
      | none => []
      | some aof =>
          [infoLine "aof_current_size:" aof.content.length,
            infoLine "aof_rewrite_in_progress:" (if aof.rewriting then 1 else 0),
            infoLine "aof_rewrites_completed:" aof.rewrites]) ++
    ["# Keyspace".toList, infoLine "db0:keys=" counted.1]
  ((lines.intersperse ['\n']).flatten ++ ['\n'], { server with store := counted.2 })

/-- `Server._start_rewrite`; the rewrite itself runs in a task of its own. -/
def startRewrite (server : Server) : Value × Server :=
  match server.aof with
  | none => (errorReply "ERR AOF is not enabled", server)
  | some aof =>
      if aof.rewriting then
        (errorReply "ERR Background append only file rewriting already in progress", server)
      else
        (.simpleString "Background append only file rewriting started".toList,
          { server with aof := some { aof with rewriting := true } })

/-- `AOFLog.append` for several records, when there is a log. -/
def append (server : Server) (records : List (List Arg)) : Server :=
  { server with
    aof := server.aof.map fun aof =>
      { aof with content := aof.content ++ records.flatMap encodeCommand } }

/-- The command that tells of an eviction. -/
def evictionCommand (key : Arg) : List Arg := [.ofString "DEL", key]

/-- Whether an accepted write is logged: a `SET` that wrote nothing is not. -/
def logs (name : Text) (before : Nat) (store : Store) : Bool :=
  name ≠ "SET".toList || store.writes ≠ before

/-- The records of a command to log, computed only when there is a log. -/
def records (clock : Clock) (server : Server) (logged : Bool) (command : List Arg) :
    Except Raised (List (List Arg)) :=
  if logged && server.aof.isSome then toAofCommands clock.time command else .ok []

/-- The turn after a command that was not refused. -/
def execute (clock : Clock) (server : Server) (authed : Bool) (name : Text)
    (command : List Arg) : Turn :=
  match dispatch clock server.store command with
  | (.error raised, store) =>
      ⟨{ server with store := store }, authed, [], [], .raised raised⟩
  | (.ok reply, store) =>
      if reply.isError = false ∧ isWriteCommand name = true then
        let logged := logs name server.store.writes store
        let drained := store.drainEvictions
        let evictions := drained.1.map evictionCommand
        match server.records clock logged command with
        | .error raised =>
            ⟨{ server with store := store }, authed, [], [], .raised raised⟩
        | .ok records =>
            ⟨{ server with store := drained.2 }.append (records ++ evictions), authed,
              (if logged then [toReplicationCommand command] else []) ++ evictions,
              [reply], .again⟩
      else
        ⟨{ server with store := store }, authed, [], [reply], .again⟩

/-- One turn of the loop of `Server._handle_client`. -/
def handle (clock : Clock) (server : Server) (authed : Bool) (command : List Bytes) :
    Turn :=
  match command with
  | [] => ⟨server, authed, [], [], .again⟩
  | head :: args =>
      let server := { server with commandsProcessed := server.commandsProcessed + 1 }
      let name := upper (decodeAscii head)
      let answer (reply : Value) : Turn := ⟨server, authed, [], [reply], .again⟩
      if name = "QUIT".toList then
        ⟨server, authed, [], [OK], .closed⟩
      else if name = "AUTH".toList then
        let reply := server.checkAuth args
        let authed := if server.requirepass.isSome then !reply.isError else authed
        ⟨server, authed, [], [reply], .again⟩
      else if authed = false then
        answer (errorReply "NOAUTH Authentication required.")
      else if name = "SYNC".toList then
        if server.replicaOf.isSome then
          answer (errorReply "ERR chained replication is not supported")
        else
          ⟨server, authed, [], [], .syncing⟩
      else if name = "INFO".toList then
        let info := server.buildInfo clock
        ⟨info.2, authed, [], [.arg (.str info.1)], .again⟩
      else if name = "BGREWRITEAOF".toList then
        let started := server.startRewrite
        ⟨started.2, authed, [], [started.1], .again⟩
      else if server.replicaOf.isSome ∧ isWriteCommand name = true then
        answer (errorReply "READONLY You can't write against a replica.")
      else if name ∈ DENYOOM ∧ server.store.policy = .noeviction ∧
          server.store.overLimit = true then
        answer (errorReply "OOM command not allowed when used memory > 'maxmemory'.")
      else
        server.execute clock authed name (received (head :: args))

/-- One turn of `Server._sweep_loop`. -/
def sweepTurn (clock : Clock) (server : Server) : Server :=
  { server with store := (server.store.sweepExpired clock.monotonic).2 }

end Server

/-- What can happen on a server: a client's command, from a client that is
authenticated or not, or a turn of the sweep. -/
inductive ServerStep
  | command (authed : Bool) (command : List Bytes)
  | sweep
deriving DecidableEq

def Server.step (clock : Clock) (server : Server) : ServerStep → Server
  | .command authed command => (server.handle clock authed command).server
  | .sweep => server.sweepTurn clock

/-- A run of a server. -/
def Server.run (server : Server) : List (Clock × ServerStep) → Server
  | [] => server
  | (clock, step) :: rest => (server.step clock step).run rest

end MiniCache
