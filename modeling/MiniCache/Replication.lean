import MiniCache.Aof

/-!
# The replication stream

The form in which a primary sends a command to its replicas, the snapshot it
sends first, and what a replica does with a command of the stream.
-/

namespace MiniCache

/-- `build_snapshot_commands`; listing the store sweeps it. -/
def buildSnapshotCommands (clock : Clock) (store : Store) : List (List Arg) × Store :=
  let listed := store.snapshot clock.monotonic
  (listed.1.flatMap fun (key, value, ttl) =>
    let setCommand := [.ofString "SET", key, value]
    match ttl with
    | none => [setCommand]
    | some ttl => [setCommand, [.ofString "EXPIRE", key, .ofInt (truncateToInt ttl + 1)]],
    listed.2)

/-- `data.upper()` on `bytes`. -/
def bytesUpper (data : Bytes) : Bytes :=
  data.map fun byte => if 97 ≤ byte ∧ byte ≤ 122 then byte - 32 else byte

/-- Whether a command is a `SET`, as `to_replication_command` tests it. -/
def namesSet : Arg → Bool
  | .str text => upper text = "SET".toList
  | .bytes data => bytesUpper data = encodeUtf8 "SET".toList

/-- `to_replication_command`. -/
def toReplicationCommand (command : List Arg) : List Arg :=
  match command with
  | [] => []
  | head :: args =>
      if namesSet head then
        match parseSet args with
        | .error _ => command
        | .ok opts =>
            let out := [.ofString "SET", opts.key, opts.value]
            match opts.ttl with
            | none => out
            | some ttl =>
                out ++ [.ofString "PX", .ofInt (max 1 (roundToEven (ttl * 1000)))]
      else command

/-- What becomes of the link of a replica with one command of the stream. -/
inductive Streamed
  | applied
  | ended
  | lost (error : ReadError)
  | refused (message : Text)
  | raised (raised : Raised)
deriving DecidableEq

/-- One turn of the loop of `ReplicaClient._connect_and_stream`. -/
def applyStreamed (clock : Clock) (store : Store) (command : List Bytes) :
    Streamed × Store :=
  match command with
  | [] => (.applied, store)
  | head :: _ =>
      if head.head? = some 45 then
        (.refused ("primary refused replication: ".toList ++
          (decodeUtf8 ([32].intercalate command)).tail), store)
      else if bytesUpper head = encodeUtf8 "PING".toList then (.applied, store)
      else
        match dispatch clock store (received command) with
        | (.error raised, store) => (.raised raised, store)
        | (.ok _, store) => (.applied, store)

/-- A command of the link, from the primary's `encode` to the replica's store. -/
def deliver (clock : Clock) (store : Store) (command : List Arg) : Streamed × Store :=
  match readCommand (encodeCommand command) with
  | .error error => (.lost error, store)
  | .ok (none, _) => (.ended, store)
  | .ok (some command, _) => applyStreamed clock store command

/-- The commands of the link in order, and whether it is still up after them. -/
def deliverAll (clock : Clock) : List (List Arg) → Store → Bool × Store
  | [], store => (true, store)
  | command :: rest, store =>
      match deliver clock store command with
      | (.applied, store) => deliverAll clock rest store
      | (_, store) => (false, store)

end MiniCache
