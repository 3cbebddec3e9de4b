import MiniCache.DeletePattern

/-!
# The calls of the cluster client

The methods of `ClusterClient` about one key, with the options and the lifetimes that they
send, and those that ask every shard.  A method returns an outcome, or the exception that
leaves it; the client drops a connection after an exception and opens it again when it needs
it, so that the link is as it was.
-/

namespace MiniCache

open ScatterGather (fill)

section Arguments

/-- `_ttl_args`, with exact products; none when it raises. -/
def ttlArgs (ttl : Time) : Option (List Arg) :=
  if ttl ≤ 0 then none
  else if ttl.isInt then some [.ofString "EX", .ofInt ttl.num]
  else some [.ofString "PX", .ofInt (max 1 (roundToEven (ttl * 1000)))]

/-- `_expire_command`. -/
def expireCommand (key : Arg) (seconds : Time) : List Arg :=
  if seconds.isInt then [.ofString "EXPIRE", key, .ofInt seconds.num]
  else [.ofString "PEXPIRE", key, .ofInt (roundToEven (seconds * 1000))]

/-- `str(amount)`, which refuses too many digits. -/
def intArg (amount : Int) : Option Arg :=
  if amount.natAbs < 10 ^ maxStrDigits then some (.ofInt amount) else none

end Arguments

/-- What leaves a method of the client: a value, or an exception of the client itself. -/
inductive Outcome
  | flag (value : Bool)
  | value (found : Answer)
  | values (found : List Answer)
  | count (number : Int)
  | keys (found : List Bytes)
  | done
  | clusterError (text : Text)
  | valueError
deriving DecidableEq

namespace Outcome

/-- `reply == "OK"`. -/
def ofSet (reply : Value) : Option Outcome := some (.flag (isOk reply))

def ofGet (reply : Value) : Option Outcome := (optBytes reply).map .value

def ofCount (reply : Value) : Option Outcome := (integer reply).map .count

/-- `_integer(reply) == 1`. -/
def ofExpire (reply : Value) : Option Outcome :=
  (integer reply).map fun number => .flag (number = 1)

/-- As many values as there are keys. -/
def ofMget (count : Nat) : Value → Option Outcome
  | .list items => if items.length = count then (items.mapM optBytes).map .values else none
  | _ => none

def ofKeys (reply : Value) : Option Outcome := (bytesList reply).map .keys

def ofNothing (_ : Value) : Option Outcome := some .done

end Outcome

/-- A command is sent and its reply read: a reply that is an error is raised as a
`ClusterError`, which puts the name of the node before the text. -/
def Link.ask (clock : Clock) (parts : List Arg) (read : Value → Option Outcome) (link : Link) :
    Option (Outcome × Link) :=
  (link.request clock parts).bind fun (reply, next) =>
    match reply with
    | .error text => some (.clusterError text, next)
    | reply => (read reply).map fun outcome => (outcome, next)

/-- A method about one key: what it sends, unless it refuses its arguments, and what it makes
of the reply. -/
structure KeyMethod where
  key : Arg
  parts : Option (List Arg)
  read : Value → Option Outcome

namespace KeyMethod

/-- `ClusterClient.set`. -/
def set (key value : Arg) (ttl : Option Time) (nx xx : Bool) : KeyMethod where
  key := key
  parts := (ttl.elim (some []) ttlArgs).map fun lifetime =>
    [.ofString "SET", key, value] ++ lifetime ++ (if nx then [.ofString "NX"] else []) ++
      if xx then [.ofString "XX"] else []
  read := Outcome.ofSet

/-- `ClusterClient.get`. -/
def get (key : Arg) : KeyMethod := ⟨key, some [.ofString "GET", key], Outcome.ofGet⟩

/-- `ClusterClient.delete`. -/
def delete (key : Arg) : KeyMethod := ⟨key, some [.ofString "DEL", key], Outcome.ofCount⟩

/-- `ClusterClient.exists`. -/
def existsKey (key : Arg) : KeyMethod := ⟨key, some [.ofString "EXISTS", key], Outcome.ofCount⟩

/-- `ClusterClient.incr`. -/
def incr (key : Arg) (amount : Int) : KeyMethod :=
  ⟨key, (intArg amount).map fun amount => [.ofString "INCRBY", key, amount], Outcome.ofCount⟩

/-- `ClusterClient.expire`. -/
def expire (key : Arg) (seconds : Time) : KeyMethod :=
  ⟨key, some (expireCommand key seconds), Outcome.ofExpire⟩

/-- `ClusterClient.ttl`. -/
def ttl (key : Arg) : KeyMethod := ⟨key, some [.ofString "TTL", key], Outcome.ofCount⟩

variable (md5 : Bytes → Nat) (ring : HashRing) (clock : Clock)

/-- The method on the node of its key. -/
def execute (method : KeyMethod) (shards : Shards) : Option (Outcome × Shards) :=
  match method.parts with
  | none => some (.valueError, shards)
  | some parts =>
      (ClusterClient.nodeFor md5 ring method.key).bind fun node =>
        ((shards node).ask clock parts method.read).map fun (outcome, link) =>
          (outcome, Function.update shards node link)

end KeyMethod

namespace ClusterClient

variable (clock : Clock) (nodes : List Text)

/-- `dict` with a key for every node. -/
def nodeDict : OrderedDict Text Unit :=
  nodes.foldl (fun dict node => dict.setItem node ()) .empty

/-- `ClusterClient._each_shard`: the nodes with their replies, none of which is an error. -/
def eachShard (parts : List Arg) (schedule : List Text) (shards : Shards) :
    Option (List (Text × Value) × Shards) :=
  (exchange clock (nodeDict nodes) (fun _ => [parts]) schedule shards).bind
    fun (answers, after) =>
      if answers.any (·.any Value.isError) then none
      else some ((nodeDict nodes).keys.zip answers.flatten, after)

/-- `ClusterClient.keys`. -/
def keys (pattern : Arg) (schedule : List Text) (shards : Shards) :
    Option (List Bytes × Shards) :=
  (eachShard clock nodes [.ofString "KEYS", pattern] schedule shards).bind
    fun (replies, after) =>
      (replies.mapM fun reply => bytesList reply.2).map fun found => (found.flatten, after)

/-- `ClusterClient.dbsize_per_shard`. -/
def dbsizePerShard (schedule : List Text) (shards : Shards) :
    Option (List (Text × Int) × Shards) :=
  (eachShard clock nodes [.ofString "DBSIZE"] schedule shards).bind fun (replies, after) =>
    (replies.mapM fun reply => (integer reply.2).map (reply.1, ·)).map fun sizes =>
      (sizes, after)

/-- `ClusterClient.dbsize`. -/
def dbsize (schedule : List Text) (shards : Shards) : Option (Int × Shards) :=
  (dbsizePerShard clock nodes schedule shards).map fun (sizes, after) =>
    ((sizes.map Prod.snd).sum, after)

/-- `ClusterClient.flush_all`. -/
def flushAll (schedule : List Text) (shards : Shards) : Option Shards :=
  (eachShard clock nodes [.ofString "FLUSHDB"] schedule shards).map Prod.snd

end ClusterClient

/-- A call of a method of the client. -/
inductive ClusterCall
  | set (key value : Arg) (ttl : Option Time) (nx xx : Bool)
  | get (key : Arg)
  | delete (key : Arg)
  | existsKey (key : Arg)
  | incr (key : Arg) (amount : Int)
  | expire (key : Arg) (seconds : Time)
  | ttl (key : Arg)
  | mget (keys : List Arg)
  | mset (items : List (Arg × Arg))
  | keys (pattern : Arg)
  | dbsize
  | flushAll
deriving DecidableEq

namespace ClusterCall

/-- The method of a call about one key. -/
def method : ClusterCall → Option KeyMethod
  | .set key value lifetime nx xx => some (.set key value lifetime nx xx)
  | .get key => some (.get key)
  | .delete key => some (.delete key)
  | .existsKey key => some (.existsKey key)
  | .incr key amount => some (.incr key amount)
  | .expire key seconds => some (.expire key seconds)
  | .ttl key => some (.ttl key)
  | .mget _ | .mset _ | .keys _ | .dbsize | .flushAll => none

section Cluster

variable (md5 : Bytes → Nat) (ring : HashRing) (nodes : List Text) (clock : Clock)

/-- A call on the cluster; the schedule says in what order the shards take their turns when
several are asked. -/
def onCluster (schedule : List Text) (shards : Shards) : ClusterCall → Option (Outcome × Shards)
  | .set key value lifetime nx xx =>
      (KeyMethod.set key value lifetime nx xx).execute md5 ring clock shards
  | .get key => (KeyMethod.get key).execute md5 ring clock shards
  | .delete key => (KeyMethod.delete key).execute md5 ring clock shards
  | .existsKey key => (KeyMethod.existsKey key).execute md5 ring clock shards
  | .incr key amount => (KeyMethod.incr key amount).execute md5 ring clock shards
  | .expire key seconds => (KeyMethod.expire key seconds).execute md5 ring clock shards
  | .ttl key => (KeyMethod.ttl key).execute md5 ring clock shards
  | .mget wanted => (ClusterClient.mget md5 ring clock wanted schedule shards).map
      fun (found, after) => (.values found, after)
  | .mset items => (ClusterClient.mset md5 ring clock items schedule shards).map
      fun after => (.done, after)
  | .keys pattern => (ClusterClient.keys clock nodes pattern schedule shards).map
      fun (found, after) => (.keys found, after)
  | .dbsize => (ClusterClient.dbsize clock nodes schedule shards).map
      fun (number, after) => (.count number, after)
  | .flushAll => (ClusterClient.flushAll clock nodes schedule shards).map
      fun after => (.done, after)

end Cluster

/-- The command that one server would be sent for a call, with what is made of the reply; or
the outcome, when nothing is to be sent. -/
def request : ClusterCall → Outcome ⊕ (List Arg × (Value → Option Outcome))
  | .mget [] => .inl (.values [])
  | .mget wanted => .inr (.ofString "MGET" :: wanted, Outcome.ofMget wanted.length)
  | .mset [] => .inl .done
  | .mset items => .inr (.ofString "MSET" :: items.flatMap flat, Outcome.ofNothing)
  | .keys pattern => .inr ([.ofString "KEYS", pattern], Outcome.ofKeys)
  | .dbsize => .inr ([.ofString "DBSIZE"], Outcome.ofCount)
  | .flushAll => .inr ([.ofString "FLUSHDB"], Outcome.ofNothing)
  | call =>
      match call.method with
      | some ⟨_, some parts, read⟩ => .inr (parts, read)
      | _ => .inl .valueError

/-- A call made to one server. -/
def onServer (clock : Clock) (link : Link) (call : ClusterCall) : Option (Outcome × Link) :=
  match call.request with
  | .inl outcome => some (outcome, link)
  | .inr (parts, read) => link.ask clock parts read

end ClusterCall

end MiniCache
