import MiniCache.ClusterLinks
import MiniCache.HashRing

/-!
# The cluster client

The methods of `ClusterClient` on a cluster in which nothing fails, over one link to each
shard.  A method that calls several shards starts one task for each of them; a schedule
says which shard takes its next command.
-/

namespace MiniCache

open ScatterGather (collect each fill turns)

/-- The link to every node. -/
abbrev Shards := Text → Link

/-- The answer of `get`. -/
abbrev Answer := Option Bytes

/-- `_opt_bytes`. -/
def optBytes : Value → Option Answer
  | .null => some none
  | .arg (.bytes data) => some (some data)
  | _ => none

/-- `reply == "OK"`. -/
def isOk : Value → Bool
  | .arg (.str text) => text = "OK".toList
  | _ => false

/-- Every task has written the batch of its group. -/
def scatter {γ : Type} (groups : OrderedDict Text γ) (batchOf : γ → List (List Arg))
    (shards : Shards) : Shards := fun node =>
  match groups.get? node with
  | none => shards node
  | some group => (shards node).write ((batchOf group).flatMap encodeCommand)

/-- One task for each group: what it writes, the turns of its shard and what it reads. -/
def exchange {γ : Type} (clock : Clock) (groups : OrderedDict Text γ)
    (batchOf : γ → List (List Arg)) (schedule : List Text) (shards : Shards) :
    Option (List (List Value) × Shards) :=
  (turns (Link.turn clock) schedule (scatter groups batchOf shards)).bind fun served =>
    each (fun entry => some entry.1) (fun entry link => link.receive (batchOf entry.2).length)
      groups.entries served

namespace ClusterClient

variable (md5 : Bytes → Nat) (ring : HashRing) (clock : Clock)

/-- `ClusterClient.node_for`; none when the ring is empty. -/
def nodeFor (key : Arg) : Option Text := (ring.getNode md5 key).toOption

/-- The node of a command, whose first argument is the key. -/
def commandNode (parts : List Arg) : Option Text := parts[1]?.bind (nodeFor md5 ring)

/-- The commands sent one at a time to the nodes of their keys. -/
def sendEach (commands : List (List Arg)) (shards : Shards) : Option (List Value × Shards) :=
  each (commandNode md5 ring) (fun parts link => link.request clock parts) commands shards

/-- `ClusterClient._execute_many` with `raise_on_error=False`. -/
def executeMany (commands : List (List Arg)) (schedule : List Text) (shards : Shards) :
    Option (List Value × Shards) :=
  (collect (fun item => commandNode md5 ring item.1) (fun item => [item.2])
      commands.zipIdx).bind fun groups =>
    (exchange clock groups (List.map (commands.getD · [])) schedule shards).map
      fun (answers, after) =>
        (fill (List.replicate commands.length .null)
          ((groups.entries.zip answers).flatMap fun (entry, replies) => entry.2.zip replies),
          after)

/-- `_execute`: a reply that is an error is raised. -/
def roundtrip (parts : List Arg) (link : Link) : Option (Value × Link) :=
  (link.request clock parts).bind fun (reply, link) =>
    if reply.isError then none else some (reply, link)

/-- `ClusterClient.get`. -/
def get (key : Arg) (link : Link) : Option (Answer × Link) :=
  (roundtrip clock [.ofString "GET", key] link).bind fun (reply, link) =>
    (optBytes reply).map fun answer => (answer, link)

/-- `get` of one key after the other. -/
def getEach (keys : List Arg) (shards : Shards) : Option (List Answer × Shards) :=
  each (nodeFor md5 ring) (get clock) keys shards

/-- The values of an `MGET` reply, which must be as many as the keys. -/
def mgetAnswers (indexes : List Nat) : List Value → Option (List (Nat × Answer))
  | [.list items] =>
      if items.length = indexes.length then (items.mapM optBytes).map (indexes.zip ·) else none
  | _ => none

/-- `ClusterClient.mget`. -/
def mget (keys : List Arg) (schedule : List Text) (shards : Shards) :
    Option (List Answer × Shards) :=
  (collect (fun item => nodeFor md5 ring item.1) (fun item => [item.2])
      keys.zipIdx).bind fun groups =>
    (exchange clock groups
        (fun indexes => [.ofString "MGET" :: indexes.map (keys.getD · (.bytes []))])
        schedule shards).bind fun (answers, after) =>
      ((groups.entries.zip answers).mapM fun answer =>
          mgetAnswers answer.1.2 answer.2).map fun pairs =>
        (fill (List.replicate keys.length none) pairs.flatten, after)

/-- `ClusterClient.set` without options. -/
def set (item : Arg × Arg) (link : Link) : Option (Bool × Link) :=
  (roundtrip clock [.ofString "SET", item.1, item.2] link).map fun (reply, link) =>
    (isOk reply, link)

/-- `set` of one item after the other. -/
def setEach (items : List (Arg × Arg)) (shards : Shards) : Option (List Bool × Shards) :=
  each (fun item => nodeFor md5 ring item.1) (set clock) items shards

/-- `ClusterClient.mset`. -/
def mset (items : List (Arg × Arg)) (schedule : List Text) (shards : Shards) :
    Option Shards :=
  (collect (fun item => nodeFor md5 ring item.1) (fun item => [item.1, item.2])
      items).bind fun groups =>
    (exchange clock groups (fun flat => [.ofString "MSET" :: flat]) schedule shards).bind
      fun (answers, after) =>
        if answers.any (·.any Value.isError) then none else some after

end ClusterClient

end MiniCache
