import MiniCache.ClusterLists

/-!
# Runs of the cluster client

A cluster answers a run of calls as one server without a memory limit does, however many
shards there are, in whatever order they take their turns, and whatever the active expiry of
each server removes in between.
-/

namespace MiniCache

open ClusterClient (nodeFor Schedules)

section Methods

variable {clock : Clock} {link next : Link} {head : Arg} {args parts : List Arg}
  {found : Command} {reply value : Value} {left : Store} {rest : Bytes}

theorem names_del : Names .del (.ofString "DEL") := names_name .del

theorem names_exists : Names .existsKey (.ofString "EXISTS") := names_name .existsKey

theorem names_incrby : Names .incrby (.ofString "INCRBY") := names_name .incrby

theorem names_expire : Names .expire (.ofString "EXPIRE") := names_name .expire

theorem names_pexpire : Names .pexpire (.ofString "PEXPIRE") := names_name .pexpire

theorem names_ttl : Names .ttl (.ofString "TTL") := names_name .ttl

/-- Of the commands about their keys only `TTL` may have a reply that is too large, which is
then not read. -/
theorem Link.Ready.sendable_of_read (ready : link.Ready) (names : Names found head)
    (keyed : found.Keyed) (deliverable : Deliverable ((head :: args).map Arg.wire))
    (dispatched : dispatch clock link.server.store (head.asBytes :: args.map Arg.asBytes) =
      (.ok reply, left))
    (read : readReply (encode reply) = .ok (value, rest)) : reply.Sendable := by
  have presentable := (ready.sendable_iff names deliverable dispatched).2
  cases found with
  | keys | dbsize | flushdb => exact absurd keyed (by decide)
  | ttl =>
      refine presentable.mpr fun key content deadline single live => ?_
      have answer := ready.answer names clock args
      rw [dispatched, single] at answer
      have seconds : secondsLeft clock.time
          (ExpiringMap.live clock.time (link.server.store.onWall clock key)) =
            ⌈deadline - clock.monotonic⌉ := by
        rw [(ready.uncapped.represents clock).get?] at live
        obtain ⟨⟨value, _ | wall⟩, alive, same⟩ := Option.map_eq_some_iff.mp live
        · cases same
        · obtain ⟨-, same⟩ := Prod.mk.inj same
          rw [alive, ← Option.some.inj same, secondsLeft, Clock.toMonotonic]
          ring_nf
      have same : reply = .int ⌈deadline - clock.monotonic⌉ := by
        rw [← seconds]
        exact Except.ok.inj answer
      rw [same] at read
      exact small_of_read read
  | ping | echo | set | get | mset | mget | incr | decr | incrby | decrby | del | existsKey
  | expire | pexpire | pexpireat | persist => exact presentable.mpr trivial

/-- A command about one key. -/
structure About (key : Arg) (parts : List Arg) (head : Arg) (args : List Arg)
    (found : Command) : Prop where
  form : parts = head :: args
  names : Names found head
  keyed : found.Keyed
  keys : found.keysOf (args.map Arg.asBytes) = [key.asBytes]

/-- What a method about one key sends is a command about it. -/
theorem KeyMethod.about {call : ClusterCall} {method : KeyMethod}
    (isMethod : call.method = some method) (sent : method.parts = some parts) :
    ∃ head args found, About method.key parts head args found := by
  cases call with
  | set key value lifetime nx xx =>
      cases isMethod
      obtain ⟨options, -, rfl⟩ := Option.map_eq_some_iff.mp sent
      exact ⟨_, _, .set, rfl, names_set, by decide, rfl⟩
  | get key =>
      cases isMethod
      cases sent
      exact ⟨_, _, .get, rfl, names_get, by decide, rfl⟩
  | delete key =>
      cases isMethod
      cases sent
      exact ⟨_, _, .del, rfl, names_del, by decide, rfl⟩
  | existsKey key =>
      cases isMethod
      cases sent
      exact ⟨_, _, .existsKey, rfl, names_exists, by decide, rfl⟩
  | incr key amount =>
      cases isMethod
      simp only [KeyMethod.incr, Option.map_eq_some_iff] at sent
      obtain ⟨digits, -, rfl⟩ := sent
      exact ⟨_, _, .incrby, rfl, names_incrby, by decide, rfl⟩
  | expire key seconds =>
      cases isMethod
      cases sent
      show ∃ head args found, About key (expireCommand key seconds) head args found
      unfold expireCommand
      split_ifs
      · exact ⟨_, _, .expire, rfl, names_expire, by decide, rfl⟩
      · exact ⟨_, _, .pexpire, rfl, names_pexpire, by decide, rfl⟩
  | ttl key =>
      cases isMethod
      cases sent
      exact ⟨_, _, .ttl, rfl, names_ttl, by decide, rfl⟩
  | mget | mset | keys | dbsize | flushAll => cases isMethod

end Methods

section Steps

variable {md5 : Bytes → Nat} {ring : HashRing} {clock : Clock} {nodes schedule : List Text}
  {shards : Shards} {link next : Link} {call : ClusterCall} {outcome : Outcome}

namespace ClusterCall

/-- What a call sends to one server is within the limits of the protocol. -/
def Delivers (call : ClusterCall) : Prop :=
  ∀ sent ∈ call.request.getRight?, Deliverable (sent.1.map Arg.wire)

instance (call : ClusterCall) : Decidable call.Delivers :=
  inferInstanceAs (Decidable (∀ sent ∈ call.request.getRight?, Deliverable (sent.1.map Arg.wire)))

/-- The shards that take turns in a call that asks several of them. -/
def owners (md5 : Bytes → Nat) (ring : HashRing) (nodes : List Text) :
    ClusterCall → List (Option Text)
  | .mget wanted => (wanted.map (nodeFor md5 ring)).dedup
  | .mset items => (items.map fun item => nodeFor md5 ring item.1).dedup
  | .keys _ | .dbsize | .flushAll => nodes.map some
  | .set .. | .get _ | .delete _ | .existsKey _ | .incr .. | .expire .. | .ttl _ => []

theorem onCluster_of_method {method : KeyMethod} (isMethod : call.method = some method) :
    call.onCluster md5 ring nodes clock schedule shards = method.execute md5 ring clock shards := by
  cases call <;> cases isMethod <;> rfl

theorem request_of_method {method : KeyMethod} (isMethod : call.method = some method) :
    call.request = method.parts.elim (.inl .valueError) fun parts =>
      .inr (parts, method.read) := by
  rcases method with ⟨key, parts, read⟩
  cases call with
  | set | get | delete | existsKey | incr | expire | ttl =>
      unfold request
      dsimp only
      rw [isMethod]
      cases parts <;> rfl
  | mget | mset | keys | dbsize | flushAll => cases isMethod

end ClusterCall

/-- The same outcome, but for the order in which keys are listed. -/
inductive Outcome.Alike : Outcome → Outcome → Prop
  | same (outcome : Outcome) : Alike outcome outcome
  | keys {found listed : List Bytes} (perm : found.Perm listed) : Alike (.keys found) (.keys listed)

/-- A method about one key. -/
theorem Mirrors.execute (mirrors : Mirrors (routeOf md5 ring) clock.monotonic shards link)
    (owned : ∀ key, ∃ node ∈ nodes, nodeFor md5 ring key = some node)
    (delivers : call.Delivers) {method : KeyMethod} (isMethod : call.method = some method)
    (served : call.onServer clock link = some (outcome, next)) :
    ∃ after, method.execute md5 ring clock shards = some (outcome, after) ∧
      Mirrors (routeOf md5 ring) clock.monotonic after next := by
  have request := ClusterCall.request_of_method isMethod
  unfold ClusterCall.Delivers at delivers
  unfold ClusterCall.onServer at served
  rw [request] at delivers served
  unfold KeyMethod.execute
  cases sent : method.parts with
  | none =>
      rw [sent] at served
      obtain ⟨rfl, rfl⟩ := Prod.mk.inj (Option.some.inj served)
      exact ⟨shards, rfl, mirrors⟩
  | some parts =>
      rw [sent] at delivers served
      obtain ⟨head, args, found, about⟩ := KeyMethod.about isMethod sent
      obtain ⟨node, -, owner⟩ := owned method.key
      obtain rfl := about.form
      have deliverable : Deliverable ((head :: args).map Arg.wire) := delivers _ rfl
      have asked : link.ask clock (head :: args) method.read = some (outcome, next) := served
      have small : ∀ reply left value rest, dispatch clock link.server.store
          (head.asBytes :: args.map Arg.asBytes) = (.ok reply, left) →
            readReply (encode reply) = .ok (value, rest) → reply.Sendable :=
        fun _ _ _ _ dispatched read =>
          mirrors.one.sendable_of_read about.names about.keyed deliverable dispatched read
      obtain ⟨after, shard, kept⟩ :=
        mirrors.ask about.names about.keyed about.keys owner deliverable small asked
      dsimp only
      rw [owner, Option.bind_some, shard]
      exact ⟨_, rfl, kept⟩

/-- The one server returns the values of the keys. -/
theorem Link.Ready.mget_outcome {wanted : List Arg} (ready : link.Ready)
    (deliverable : Deliverable ((.ofString "MGET" :: wanted).map Arg.wire))
    (served : (ClusterCall.mget wanted).onServer clock link = some (outcome, next)) :
    outcome = .values (wanted.map (link.stored clock.monotonic)) ∧ next.Ready ∧
      ∀ key, (next.server.store.live clock.monotonic).get? key =
        (link.server.store.live clock.monotonic).get? key := by
  cases wanted with
  | nil =>
      obtain ⟨rfl, rfl⟩ := Prod.mk.inj (Option.some.inj served)
      exact ⟨rfl, ready, fun _ => rfl⟩
  | cons key wanted =>
      obtain ⟨items, left, requested, count, values, idle, view⟩ :=
        ready.mget (List.cons_ne_nil key wanted) deliverable
      obtain ⟨reply, got, sense⟩ := Link.ask_eq_some_iff.mp served
      obtain ⟨rfl, rfl⟩ := Prod.mk.inj (Option.some.inj (got.symm.trans requested))
      rcases sense with ⟨_, impossible, -⟩ | ⟨-, read⟩
      · cases impossible
      · rw [Outcome.ofMget, if_pos count, values] at read
        exact ⟨(Option.some.inj read).symm, idle, view⟩

/-- The one server writes the items. -/
theorem Link.Ready.mset_outcome {items : List (Arg × Arg)} (ready : link.Ready)
    (deliverable : Deliverable ((.ofString "MSET" :: items.flatMap flat).map Arg.wire))
    (served : (ClusterCall.mset items).onServer clock link = some (outcome, next)) :
    outcome = .done ∧ next.Ready ∧ link.Wrote clock items next := by
  cases items with
  | nil =>
      obtain ⟨rfl, rfl⟩ := Prod.mk.inj (Option.some.inj served)
      exact ⟨rfl, ready, (ready.uncapped.represents clock).get?⟩
  | cons item items =>
      obtain ⟨left, requested, idle, wrote⟩ :=
        ready.mset (List.cons_ne_nil item items) deliverable
      obtain ⟨reply, got, sense⟩ := Link.ask_eq_some_iff.mp served
      obtain ⟨rfl, rfl⟩ := Prod.mk.inj (Option.some.inj (got.symm.trans requested))
      rcases sense with ⟨_, impossible, -⟩ | ⟨-, read⟩
      · cases impossible
      · exact ⟨(Option.some.inj read).symm, idle, wrote⟩

/-- A call has the same outcome on the cluster. -/
theorem Mirrors.serves (mirrors : Mirrors (routeOf md5 ring) clock.monotonic shards link)
    (nodup : nodes.Nodup) (owned : ∀ key, ∃ node ∈ nodes, nodeFor md5 ring key = some node)
    (delivers : call.Delivers) (schedules : Schedules schedule (call.owners md5 ring nodes))
    (served : call.onServer clock link = some (outcome, next)) :
    ∃ other after, call.onCluster md5 ring nodes clock schedule shards = some (other, after) ∧
      other.Alike outcome ∧ Mirrors (routeOf md5 ring) clock.monotonic after next := by
  have anywhere (key : Arg) : ∃ node, nodeFor md5 ring key = some node :=
    (owned key).imp fun _ both => both.2
  have routed (data : Bytes) : ∃ node ∈ nodes, routeOf md5 ring data = some node :=
    owned (.bytes data)
  cases isMethod : call.method with
  | some method =>
      obtain ⟨after, executed, kept⟩ := mirrors.execute owned delivers isMethod served
      refine ⟨outcome, after, ?_, .same outcome, kept⟩
      rw [ClusterCall.onCluster_of_method isMethod, executed]
  | none =>
      cases call with
      | set | get | delete | existsKey | incr | expire | ttl => cases isMethod
      | mget wanted =>
          have deliverable : Deliverable ((.ofString "MGET" :: wanted).map Arg.wire) := by
            cases wanted with
            | nil => decide
            | cons key wanted => exact delivers _ rfl
          obtain ⟨after, found, idle, views⟩ := mirrors.mget anywhere deliverable schedules
          obtain ⟨rfl, ready, view⟩ := mirrors.one.mget_outcome deliverable served
          refine ⟨_, after, ?_, .same _, mirrors.looked idle ready views view⟩
          rw [ClusterCall.onCluster, found, Option.map_some]
      | mset items =>
          have deliverable :
              Deliverable ((.ofString "MSET" :: items.flatMap flat).map Arg.wire) := by
            cases items with
            | nil => decide
            | cons item items => exact delivers _ rfl
          obtain ⟨rfl, ready, wrote⟩ := mirrors.one.mset_outcome deliverable served
          obtain ⟨after, done, kept⟩ := mirrors.mset anywhere deliverable schedules ready wrote
          refine ⟨_, after, ?_, .same _, kept⟩
          rw [ClusterCall.onCluster, done, Option.map_some]
      | keys pattern =>
          have deliverable :
              Deliverable (([.ofString "KEYS", pattern] : List Arg).map Arg.wire) :=
            delivers _ rfl
          obtain ⟨value, asked, sense⟩ := Link.ask_eq_some_iff.mp served
          obtain ⟨listed, after, done, perm, read, fine, kept⟩ :=
            mirrors.keys nodup routed schedules deliverable asked
          rcases sense with ⟨text, rfl, -⟩ | ⟨-, same⟩
          · cases fine
          · obtain rfl := Option.some.inj (same.symm.trans read)
            refine ⟨_, after, ?_, .keys perm, kept⟩
            rw [ClusterCall.onCluster, done, Option.map_some]
      | dbsize =>
          obtain ⟨value, asked, sense⟩ := Link.ask_eq_some_iff.mp served
          obtain ⟨after, done, rfl, kept⟩ := mirrors.dbsize nodup routed schedules asked
          rcases sense with ⟨text, impossible, -⟩ | ⟨-, same⟩
          · cases impossible
          · obtain rfl := Option.some.inj same
            refine ⟨_, after, ?_, .same _, kept⟩
            rw [ClusterCall.onCluster, done, Option.map_some]
      | flushAll =>
          obtain ⟨value, asked, sense⟩ := Link.ask_eq_some_iff.mp served
          obtain ⟨after, done, fine, kept⟩ := mirrors.flushAll nodup routed schedules asked
          rcases sense with ⟨text, rfl, -⟩ | ⟨-, same⟩
          · cases fine
          · obtain rfl := Option.some.inj same
            refine ⟨_, after, ?_, .same _, kept⟩
            rw [ClusterCall.onCluster, done, Option.map_some]

end Steps

section Runs

variable {md5 : Bytes → Nat} {ring : HashRing} {nodes : List Text} {now : Time} {clock : Clock}
  {shards : Shards} {link : Link}

/-- What happens to a cluster and to a server beside it: a call of both, or the active expiry of
a shard or of the server. -/
inductive ClusterTurn
  | call (call : ClusterCall) (schedule : List Text)
  | sweep (node : Text)
  | sweepServer
deriving DecidableEq

namespace ClusterTurn

def Delivers : ClusterTurn → Prop
  | .call asked _ => asked.Delivers
  | .sweep _ | .sweepServer => True

instance (turn : ClusterTurn) : Decidable turn.Delivers :=
  match turn with
  | .call asked _ => inferInstanceAs (Decidable asked.Delivers)
  | .sweep _ | .sweepServer => inferInstanceAs (Decidable True)

/-- The schedule of a call gives every shard that is asked its turn. -/
def Fair (md5 : Bytes → Nat) (ring : HashRing) (nodes : List Text) : ClusterTurn → Prop
  | .call asked schedule => Schedules schedule (asked.owners md5 ring nodes)
  | .sweep _ | .sweepServer => True

instance (turn : ClusterTurn) : Decidable (turn.Fair md5 ring nodes) :=
  match turn with
  | .call asked schedule =>
      inferInstanceAs (Decidable ((schedule.map some).Perm (asked.owners md5 ring nodes)))
  | .sweep _ | .sweepServer => inferInstanceAs (Decidable True)

end ClusterTurn

/-- The active expiry of the server behind a link. -/
def Link.sweep (clock : Clock) (link : Link) : Link :=
  { link with
    server := { link.server with store := (link.server.store.sweepExpired clock.monotonic).2 } }

/-- The outcomes of the calls on the cluster; none when one of them is not answered. -/
def clusterOutcomes (md5 : Bytes → Nat) (ring : HashRing) (nodes : List Text) :
    List (Clock × ClusterTurn) → Shards → Option (List Outcome)
  | [], _ => some []
  | (clock, .call call schedule) :: run, shards =>
      (call.onCluster md5 ring nodes clock schedule shards).bind fun (outcome, after) =>
        (clusterOutcomes md5 ring nodes run after).map (outcome :: ·)
  | (clock, .sweep node) :: run, shards =>
      clusterOutcomes md5 ring nodes run
        (Function.update shards node ((shards node).sweep clock))
  | (_, .sweepServer) :: run, shards => clusterOutcomes md5 ring nodes run shards

/-- The outcomes of the same calls on one server. -/
def serverOutcomes : List (Clock × ClusterTurn) → Link → Option (List Outcome)
  | [], _ => some []
  | (clock, .call call _) :: run, link =>
      (call.onServer clock link).bind fun (outcome, next) =>
        (serverOutcomes run next).map (outcome :: ·)
  | (_, .sweep _) :: run, link => serverOutcomes run link
  | (clock, .sweepServer) :: run, link => serverOutcomes run (link.sweep clock)

theorem Link.Ready.swept (ready : link.Ready) (clock : Clock) :
    (link.sweep clock).Ready ∧
      ∀ key, ((link.sweep clock).server.store.live clock.monotonic).get? key =
        (link.server.store.live clock.monotonic).get? key := by
  have observes := observes_sweep clock.monotonic link.server.store
  refine ⟨⟨⟨ready.inbox, ready.outbox⟩, ready.authed, ready.primary, ?_, ?_⟩, observes.view⟩
  · exact ready.uncapped.observes observes
  · exact ready.reachable.sweep clock.monotonic

theorem Mirrors.swept (mirrors : Mirrors (routeOf md5 ring) clock.monotonic shards link)
    (node : Text) : Mirrors (routeOf md5 ring) clock.monotonic
      (Function.update shards node ((shards node).sweep clock)) link := by
  obtain ⟨ready, view⟩ := (mirrors.ready node).swept clock
  refine mirrors.looked (fun other => ?_) mirrors.one (fun other key => ?_) fun _ => rfl
  · by_cases here : other = node
    · subst here
      rwa [Function.update_self]
    · rw [Function.update_of_ne here]
      exact mirrors.ready other
  · by_cases here : other = node
    · subst here
      rw [Function.update_self]
      exact view key
    · rw [Function.update_of_ne here]

theorem Mirrors.sweptServer (mirrors : Mirrors (routeOf md5 ring) clock.monotonic shards link) :
    Mirrors (routeOf md5 ring) clock.monotonic shards (link.sweep clock) :=
  have swept := mirrors.one.swept clock
  mirrors.looked mirrors.ready swept.1 (fun _ _ => rfl) swept.2

/-- Calls have the same outcomes one after the other. -/
theorem Mirrors.outcomes (mirrors : Mirrors (routeOf md5 ring) now shards link)
    (nodup : nodes.Nodup) (owned : ∀ key, ∃ node ∈ nodes, nodeFor md5 ring key = some node)
    {run : List (Clock × ClusterTurn)} (forward : Forward run)
    (later : ∀ event ∈ run, now ≤ event.1.monotonic)
    (delivers : ∀ event ∈ run, event.2.Delivers)
    (fair : ∀ event ∈ run, event.2.Fair md5 ring nodes) {outcomes : List Outcome}
    (served : serverOutcomes run link = some outcomes) :
    ∃ others, clusterOutcomes md5 ring nodes run shards = some others ∧
      List.Forall₂ Outcome.Alike others outcomes := by
  induction run generalizing now shards link outcomes with
  | nil =>
      cases served
      exact ⟨[], rfl, .nil⟩
  | cons event run ih =>
      obtain ⟨clock, turn⟩ := event
      obtain ⟨first, -⟩ := List.forall_mem_cons.mp later
      obtain ⟨deliversHere, deliversRest⟩ := List.forall_mem_cons.mp delivers
      obtain ⟨fairHere, fairRest⟩ := List.forall_mem_cons.mp fair
      have following : ∀ event ∈ run, clock.monotonic ≤ event.1.monotonic := fun event member =>
        (List.pairwise_cons.mp forward).1 _ (List.mem_map_of_mem member)
      have mirrors := mirrors.later first
      cases turn with
      | call call schedule =>
          obtain ⟨⟨outcome, next⟩, answered, calls⟩ := Option.bind_eq_some_iff.mp served
          obtain ⟨rest, answeredRest, rfl⟩ := Option.map_eq_some_iff.mp calls
          obtain ⟨other, after, onCluster, alike, kept⟩ :=
            mirrors.serves nodup owned deliversHere fairHere answered
          obtain ⟨others, done, all⟩ :=
            ih kept forward.tail following deliversRest fairRest answeredRest
          refine ⟨other :: others, ?_, .cons alike all⟩
          rw [clusterOutcomes, onCluster, Option.bind_some]
          dsimp only
          rw [done, Option.map_some]
      | sweep node =>
          exact ih (mirrors.swept node) forward.tail following deliversRest fairRest served
      | sweepServer =>
          exact ih mirrors.sweptServer forward.tail following deliversRest fairRest served

/-- A link on which nothing is under way to a primary that holds nothing and has no limit. -/
structure Link.Fresh (link : Link) : Prop extends Link.Quiet link where
  authed : link.authed = true
  primary : link.server.replicaOf = none
  store : ∃ policy, link.server.store = Store.init 0 policy

theorem Link.Fresh.ready (fresh : link.Fresh) : link.Ready := by
  obtain ⟨policy, store⟩ := fresh.store
  refine ⟨⟨fresh.inbox, fresh.outbox⟩, fresh.authed, fresh.primary, ?_, ?_⟩
  · rw [store]
    exact uncapped_init policy
  · rw [store]
    exact .init 0 policy

theorem Link.Fresh.get? (fresh : link.Fresh) (key : Arg) :
    (link.server.store.live now).get? key = none := by
  obtain ⟨policy, store⟩ := fresh.store
  rw [store]
  rfl

/-- Fresh shards mirror a fresh server. -/
theorem mirrors_fresh (fresh : ∀ node, (shards node).Fresh) (one : link.Fresh) :
    Mirrors (routeOf md5 ring) now shards link := by
  refine ⟨fun node => (fresh node).ready, one.ready, fun data node _ => ?_, fun data node _ => ?_⟩
  · rw [(fresh node).get?, one.get?]
  · exact (fresh node).get? _

/-- Whenever one server without a memory limit answers a run of calls, a cluster of such servers
answers it with the same outcomes, in whatever order its shards take their turns and whatever
expired keys each server has swept away by then; only the order in which keys are listed may
differ. -/
theorem cluster_as_one_server (md5 : Bytes → Nat) {virtualNodes : Nat}
    (positive : 0 < virtualNodes) {nodes : List Text} (nonempty : nodes ≠ [])
    (nodup : nodes.Nodup) {shards : Shards} {link : Link} (fresh : ∀ node, (shards node).Fresh)
    (one : link.Fresh) {run : List (Clock × ClusterTurn)} (forward : Forward run)
    (delivers : ∀ event ∈ run, event.2.Delivers)
    (fair : ∀ event ∈ run, event.2.Fair md5 (.init md5 virtualNodes nodes) nodes)
    {outcomes : List Outcome} (served : serverOutcomes run link = some outcomes) :
    ∃ others, clusterOutcomes md5 (.init md5 virtualNodes nodes) nodes run shards = some others ∧
      List.Forall₂ Outcome.Alike others outcomes := by
  have owned (key : Arg) :
      ∃ node ∈ nodes, nodeFor md5 (.init md5 virtualNodes nodes) key = some node := by
    obtain ⟨node, member, found⟩ := HashRing.exists_getNode_init md5 positive nonempty key
    refine ⟨node, member, ?_⟩
    rw [nodeFor, found]
    rfl
  cases run with
  | nil =>
      cases served
      exact ⟨[], rfl, .nil⟩
  | cons event run =>
      have later : ∀ other ∈ event :: run, event.1.monotonic ≤ other.1.monotonic := by
        refine List.forall_mem_cons.mpr ⟨le_rfl, fun other member => ?_⟩
        exact (List.pairwise_cons.mp forward).1 _ (List.mem_map_of_mem member)
      exact (mirrors_fresh fresh one).outcomes nodup owned forward later delivers fair served

def oneFresh : Link := ⟨emptyServer, true, [], []⟩

theorem fresh_oneFresh : oneFresh.Fresh :=
  ⟨⟨rfl, rfl⟩, rfl, rfl, .allkeysLru, rfl⟩

/-- Two keys on two shards, one of which expires before it is asked for again. -/
def twoShardRun : List (Clock × ClusterTurn) :=
  [(.afterEpoch 0, .call (.mset mixedItems) [['b'], ['a']]),
    (.afterEpoch 0, .call (.set (.str ['s']) (.bytes [53]) (some (1 / 2)) false true) []),
    (.afterEpoch 100, .call (.keys (.ofString "*")) [['a'], ['b']]),
    (.afterEpoch 100, .call (.incr (.bytes [107]) 4) []),
    (.afterEpoch 600, .sweep ['b']),
    (.afterEpoch 700, .call (.mget mixedKeys) [['a'], ['b']]),
    (.afterEpoch 700, .sweepServer),
    (.afterEpoch 800, .call .dbsize [['b'], ['a']])]

theorem cluster_as_one_server_twoShardRun :
    ∃ outcomes others, serverOutcomes twoShardRun oneFresh = some outcomes ∧
      clusterOutcomes pairDigest (.init pairDigest 1 [['a'], ['b']]) [['a'], ['b']] twoShardRun
          freshShards = some others ∧
        List.Forall₂ Outcome.Alike others outcomes := by
  have answered : (serverOutcomes twoShardRun oneFresh).isSome = true := by decide +kernel
  obtain ⟨outcomes, served⟩ := Option.isSome_iff_exists.mp answered
  obtain ⟨others, done, alike⟩ := @cluster_as_one_server pairDigest 1 Nat.one_pos _
    (List.cons_ne_nil ['a'] [['b']]) (by decide) freshShards oneFresh (fun _ => fresh_oneFresh)
    fresh_oneFresh twoShardRun (by decide +kernel) (by decide +kernel) (by decide +kernel)
    outcomes served
  exact ⟨outcomes, others, served, done, alike⟩

end Runs

end MiniCache
