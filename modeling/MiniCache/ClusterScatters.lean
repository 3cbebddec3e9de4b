import MiniCache.ClusterStore

/-!
# Calls that ask several shards

What `mget`, `mset`, `keys`, `dbsize` and `flush_all` do on shards that together hold what one
server holds.
-/

namespace MiniCache

open ExpiringMap (Effect applyAll mapDeadline)
open ScatterGather (collect share answered)

section Answering

variable {clock : Clock} {link : Link} {head : Arg} {args : List Arg} {found : Command}

/-- The value of a key on the server behind a link. -/
def Link.stored (now : Time) (link : Link) (key : Arg) : Answer :=
  ((link.server.store.live now).get? key.asBytes).map fun content => content.1.wire

/-- What the server answers to a command of the table. -/
theorem Link.Ready.answer (ready : link.Ready) (names : Names found head) (clock : Clock)
    (args : List Arg) :
    (dispatch clock link.server.store (head.asBytes :: args.map Arg.asBytes)).1 =
      caught (upper (toText head.asBytes)) (found.answer clock.time
        (link.server.store.onWall clock) (link.server.store.live clock.monotonic).keys
        (args.map Arg.asBytes)) := by
  rw [answer_dispatch (ready.uncapped.represents clock) ready.reachable.scheduled]
  simp only [commandAnswer, names.known]

theorem Link.Ready.valueOf_eq (ready : link.Ready) (key : Arg) :
    valueOf clock.time (link.server.store.onWall clock) key =
      ((link.server.store.live clock.monotonic).get? key).map Prod.fst := by
  rw [← (ready.uncapped.represents clock).value, Store.get_result]

/-- The stored values are bytes. -/
theorem Link.Ready.optBytes_eq (ready : link.Ready) (key : Arg) :
    optBytes (Value.ofOption (valueOf clock.time (link.server.store.onWall clock)
      key.asBytes)).normal = some (link.stored clock.monotonic key) := by
  rw [ready.valueOf_eq, Link.stored]
  cases live : (link.server.store.live clock.monotonic).get? key.asBytes with
  | none => rfl
  | some content =>
      rw [← Store.live_plain] at live
      obtain ⟨-, data, isBytes, -⟩ := ready.reachable.storing _ content
        (ExpiringMap.live_eq_some_iff.mp live).1
      simp only [Option.map_some, isBytes]
      rfl

/-- A command that only looks leaves the live contents alone. -/
theorem Link.Ready.view (names : Names found head) (reads : ¬ found.Writes) (key : Arg) :
    ((dispatch clock link.server.store (head.asBytes :: args.map Arg.asBytes)).2.live
      clock.monotonic).get? key = (link.server.store.live clock.monotonic).get? key := by
  have known : Command.ofCommand (head.asBytes :: args.map Arg.asBytes) = some found := names.known
  refine (observes_of_reads fun other isOther => ?_).view key
  obtain rfl := Option.some.inj (known.symm.trans isOther)
  exact reads

/-- What a shard replies to a command that only looks. -/
theorem Link.Ready.look (ready : link.Ready) (names : Names found head)
    (reads : ¬ found.Writes) (deliverable : Deliverable ((head :: args).map Arg.wire))
    {reply : Value}
    (answer : found.answer clock.time (link.server.store.onWall clock)
      (link.server.store.live clock.monotonic).keys (args.map Arg.asBytes) = .ok reply)
    (presentable : found.Presentable clock link.server.store (args.map Arg.asBytes)) :
    ∃ next, link.request clock (head :: args) = some (reply.normal, next) ∧ next.Ready ∧
      ∀ key, (next.server.store.live clock.monotonic).get? key =
        (link.server.store.live clock.monotonic).get? key := by
  have replied := ready.answer names clock args
  rw [answer] at replied
  have dispatched : dispatch clock link.server.store (head.asBytes :: args.map Arg.asBytes) =
      (.ok reply, (dispatch clock link.server.store (head.asBytes :: args.map Arg.asBytes)).2) :=
    Prod.ext replied rfl
  have sendable := (ready.sendable_iff names deliverable dispatched).2.mpr presentable
  obtain ⟨next, requested, idle, store⟩ := ready.request names deliverable dispatched sendable
  refine ⟨next, requested, idle, fun key => ?_⟩
  rw [store]
  exact Link.Ready.view names reads key

end Answering

section Exchanges

variable {γ : Type} {clock : Clock} {groups : OrderedDict Text γ} {command : γ → List Arg}
  {schedule : List Text} {shards after : Shards} {replies : Text → Value}

/-- Every shard of a group is sent one command and answers it in its turn. -/
theorem exchange_requests
    (once : ∀ node, schedule.countP (· = node) = if (groups.get? node).isSome then 1 else 0)
    (requested : ∀ node group, groups.get? node = some group →
      (shards node).request clock (command group) = some (replies node, after node))
    (others : ∀ node, groups.get? node = none → after node = shards node) :
    exchange clock groups (fun group => [command group]) schedule shards =
      some (groups.entries.map fun entry => [replies entry.1], after) := by
  refine @exchange_eq _ clock groups (fun group => [command group]) schedule shards after
    (fun node => [replies node]) ?_ ?_
  · intro node group isGroup
    rw [once node, isGroup]
    exact Link.exchange_of_request (requested node group isGroup)
  · intro node absent
    exact ⟨by rw [once node, absent]; rfl, others node absent⟩

end Exchanges

section Mget

variable {md5 : Bytes → Nat} {ring : HashRing} {clock : Clock} {shards : Shards}
  {link next : Link} {schedule : List Text} {keys : List Arg}

/-- The owner of a key that a shard receives. -/
def routeOf (md5 : Bytes → Nat) (ring : HashRing) (data : Bytes) : Option Text :=
  ClusterClient.nodeFor md5 ring (.bytes data)

theorem Mirrors.stored (mirrors : Mirrors (routeOf md5 ring) clock.monotonic shards link)
    {key : Arg} {node : Text} (owner : ClusterClient.nodeFor md5 ring key = some node) :
    (shards node).stored clock.monotonic key = link.stored clock.monotonic key := by
  rw [Link.stored, Link.stored]
  exact congrArg _ (mirrors.own key.wire node owner)

theorem Link.Ready.mget (ready : link.Ready) (nonempty : keys ≠ [])
    (deliverable : Deliverable ((.ofString "MGET" :: keys).map Arg.wire)) :
    ∃ items next, link.request clock (.ofString "MGET" :: keys) = some (.list items, next) ∧
      items.length = keys.length ∧
      items.mapM optBytes = some (keys.map (link.stored clock.monotonic)) ∧ next.Ready ∧
      ∀ key, (next.server.store.live clock.monotonic).get? key =
        (link.server.store.live clock.monotonic).get? key := by
  let item (key : Arg) : Value :=
    .ofOption (valueOf clock.time (link.server.store.onWall clock) key.asBytes)
  have answer : Command.mget.answer clock.time (link.server.store.onWall clock)
      (link.server.store.live clock.monotonic).keys (keys.map Arg.asBytes) =
        .ok (.list (keys.map item)) := by
    have several : ¬ (keys.map Arg.asBytes).length < 1 := by
      have positive := List.length_pos_iff.mpr nonempty
      rw [List.length_map]
      omega
    simp only [Command.answer, someAnswer, if_neg several, List.map_map]
    rfl
  obtain ⟨next, requested, idle, view⟩ :=
    ready.look names_mget (by decide) deliverable answer trivial
  refine ⟨(keys.map item).map Value.normal, next, ?_, by simp, ?_, idle, view⟩
  · rw [requested, Value.normal, Value.normalAll_eq_map]
  · rw [List.mapM_map, List.mapM_map]
    exact mapM_eq_some fun key _ => ready.optBytes_eq key

/-- The answers to a share are the share of the answers. -/
theorem answered_map {ι κ β : Type*} [DecidableEq ι] (owner : κ → Option ι) (node : ι)
    (requests : List κ) (result : κ → β) :
    (answered owner node requests (requests.map result)).map Prod.snd =
      (share owner node requests).map result := by
  induction requests with
  | nil => rfl
  | cons request requests ih =>
      rw [List.map_cons]
      by_cases own : owner request = some node
      · rw [ScatterGather.answered_cons_own own, ScatterGather.share_cons_own own, List.map_cons,
          List.map_cons, ih]
      · rw [ScatterGather.answered_cons_other own, ScatterGather.share_cons_other own, ih]

/-- `mget` returns the values of its keys on the one server. -/
theorem Mirrors.mget (mirrors : Mirrors (routeOf md5 ring) clock.monotonic shards link)
    (owned : ∀ key, ∃ node, ClusterClient.nodeFor md5 ring key = some node)
    (deliverable : Deliverable ((.ofString "MGET" :: keys).map Arg.wire))
    (schedules : ClusterClient.Schedules schedule
      (keys.map (ClusterClient.nodeFor md5 ring)).dedup) :
    ∃ after, ClusterClient.mget md5 ring clock keys schedule shards =
        some (keys.map (link.stored clock.monotonic), after) ∧
      (∀ node, (after node).Ready) ∧
      ∀ node key, ((after node).server.store.live clock.monotonic).get? key =
        ((shards node).server.store.live clock.monotonic).get? key := by
  let owner : Arg → Option Text := ClusterClient.nodeFor md5 ring
  let result : Arg → Answer := link.stored clock.monotonic
  obtain ⟨groups, collected⟩ :=
    @ScatterGather.exists_collect _ _ _ _ (fun item : Arg × Nat => owner item.1)
      (fun item => [item.2]) keys.zipIdx fun item _ => owned item.1
  have visits : ∀ node, ∃ (items : List Value) (left : Link),
      items.length = (share owner node keys).length ∧
        items.mapM optBytes = some ((share owner node keys).map result) ∧ left.Ready ∧
        (∀ key, (left.server.store.live clock.monotonic).get? key =
          ((shards node).server.store.live clock.monotonic).get? key) ∧
        (share owner node keys = [] → left = shards node) ∧
        (share owner node keys ≠ [] → (shards node).request clock
          (.ofString "MGET" :: share owner node keys) = some (.list items, left)) := by
    intro node
    by_cases nothing : share owner node keys = []
    · rw [nothing]
      exact ⟨[], shards node, rfl, rfl, mirrors.ready node, fun _ => rfl, fun _ => rfl,
        fun some => absurd rfl some⟩
    · have within : Deliverable ((.ofString "MGET" :: share owner node keys).map Arg.wire) :=
        Deliverable.of_sublist (List.filter_sublist.cons_cons _) deliverable
      obtain ⟨items, left, requested, count, shown, idle, view⟩ :=
        (mirrors.ready node).mget nothing within
      have same : (share owner node keys).map ((shards node).stored clock.monotonic) =
          (share owner node keys).map result := by
        refine List.map_congr_left fun key member => mirrors.stored ?_
        exact of_decide_eq_true (List.mem_filter.mp member).2
      refine ⟨items, left, count, ?_, idle, view, fun none => absurd none nothing,
        fun _ => requested⟩
      rw [shown, same]
  choose items left counts shown idle views unused used using visits
  refine ⟨left, ?_, idle, views⟩
  have exchanged := @exchange_requests _ clock groups
    (fun indexes => .ofString "MGET" :: indexes.map (keys.getD · (.bytes []))) schedule shards
    left (fun node => .list (items node)) ?_ ?_ ?_
  · rw [ClusterClient.mget, collected, Option.bind_some, exchanged, Option.bind_some]
    have read : ∀ entry ∈ groups.entries,
        ClusterClient.mgetAnswers entry.2 [.list (items entry.1)] =
          some (entry.2.zip ((answered owner entry.1 keys (keys.map result)).map Prod.snd)) := by
      rintro ⟨node, group⟩ member
      have size := congrArg List.length
        (ScatterGather.map_getD_group (.bytes []) collected member)
      rw [List.length_map, ← counts] at size
      simp only [ClusterClient.mgetAnswers, size, if_true, shown, Option.map_some, answered_map]
    have all : groups.entries.mapM ((fun answer : (Text × List Nat) × List Value =>
          ClusterClient.mgetAnswers answer.1.2 answer.2) ∘
            fun entry => (entry, [Value.list (items entry.1)])) =
        some (groups.entries.map fun entry =>
          entry.2.zip ((answered owner entry.1 keys (keys.map result)).map Prod.snd)) :=
      mapM_eq_some read
    dsimp only
    rw [← List.map_prod_left_eq_zip, List.mapM_map, all, Option.map_some, ← List.flatMap_def,
      ScatterGather.fill_gathered (List.length_map _) collected (by simp)]
  · intro node
    cases isGroup : groups.get? node with
    | none =>
        have nothing := ScatterGather.share_of_no_group collected isGroup
        rw [countP_of_dedup schedules, if_pos nothing]
        rfl
    | some group =>
        have member := OrderedDict.get?_eq_some_iff.mp isGroup
        have nonempty := ScatterGather.share_of_group collected member
        rw [countP_of_dedup schedules, if_neg nonempty]
        rfl
  · intro node group isGroup
    have member := OrderedDict.get?_eq_some_iff.mp isGroup
    have batch := ScatterGather.map_getD_group (.bytes []) collected member
    have nonempty := ScatterGather.share_of_group collected member
    rw [batch]
    exact used node nonempty
  · intro node absent
    exact unused node (ScatterGather.share_of_no_group collected absent)

end Mget

section Mset

variable {md5 : Bytes → Nat} {ring : HashRing} {clock : Clock} {shards : Shards}
  {link next : Link} {schedule : List Text} {items : List (Arg × Arg)}

/-- What an item of `MSET` does. -/
def itemWrite (item : Arg × Arg) : Effect Arg Arg Time :=
  .act item.1.asBytes (.write item.2.asBytes none)

theorem pairWrites_flat (items : List (Arg × Arg)) :
    pairWrites ((items.flatMap flat).map Arg.asBytes) = items.map itemWrite := by
  induction items with
  | nil => rfl
  | cons item items ih =>
      rw [List.flatMap_cons, List.map_append, List.map_cons, ← ih]
      rfl

/-- What is left of the live contents by the writes of some items. -/
def Link.Wrote (clock : Clock) (items : List (Arg × Arg)) (link next : Link) : Prop :=
  ∀ key, (next.server.store.live clock.monotonic).get? key =
    mapDeadline clock.toMonotonic (ExpiringMap.live clock.time
      (applyAll clock.time (items.map itemWrite) (link.server.store.onWall clock) key))

/-- `MSET` leaves what its items write. -/
theorem Link.Ready.mset (ready : link.Ready) (nonempty : items ≠ [])
    (deliverable : Deliverable ((.ofString "MSET" :: items.flatMap flat).map Arg.wire)) :
    ∃ next, link.request clock (.ofString "MSET" :: items.flatMap flat) =
        some (OK.normal, next) ∧ next.Ready ∧ link.Wrote clock items next := by
  let args := (items.flatMap flat).map Arg.asBytes
  have length : args.length = 2 * items.length := by
    rw [List.length_map, List.length_flatMap]
    simp [flat, Nat.mul_comm]
  have even : ¬ (args.length < 2 ∨ args.length % 2 = 1) := by
    have positive := List.length_pos_iff.mpr nonempty
    omega
  let command : List Arg := (Arg.ofString "MSET").asBytes :: args
  have known : Command.ofCommand command = some .mset := names_mset.known
  have replied : (dispatch clock link.server.store command).1 = .ok OK := by
    rw [ready.answer names_mset]
    simp only [Command.answer, if_neg even, args]
    rfl
  have dispatched : dispatch clock link.server.store command =
      (.ok OK, (dispatch clock link.server.store command).2) := Prod.ext replied rfl
  obtain ⟨next, requested, idle, store⟩ :=
    ready.request names_mset deliverable dispatched fitsLine_OK
  refine ⟨next, requested, idle, fun key => ?_⟩
  rw [store, get?_dispatch ready.uncapped, commandEffects, known]
  simp only [command, Command.effects, List.tail_cons, if_neg even, args, pairWrites_flat]

/-- Every shard writes its share of the items. -/
theorem Mirrors.wrote {after : Shards}
    (mirrors : Mirrors (routeOf md5 ring) clock.monotonic shards link)
    (ready : ∀ node, (after node).Ready) (one : next.Ready) (wrote : link.Wrote clock items next)
    (each : ∀ node, (shards node).Wrote clock
      (share (fun item => ClusterClient.nodeFor md5 ring item.1) node items) (after node)) :
    Mirrors (routeOf md5 ring) clock.monotonic after next := by
  let owner (item : Arg × Arg) : Option Text := ClusterClient.nodeFor md5 ring item.1
  refine ⟨ready, one, fun data node owned => ?_, fun data node other => ?_⟩
  · rw [each, wrote]
    refine congrArg _ (ExpiringMap.live_applyAll_filter (fun item _ unowned => ?_) ?_)
    · refine ⟨[item.1.asBytes], List.mem_singleton_self _, fun member => ?_⟩
      have same : data = item.1.wire := Arg.bytes.inj (List.mem_singleton.mp member)
      rw [same] at owned
      exact of_decide_eq_false unowned owned
    · exact live_onWall_congr (mirrors.ready node).uncapped mirrors.one.uncapped
        (mirrors.own data node owned)
  · have apart : Arg.bytes data ∉ (share owner node items).map fun item => item.1.asBytes := by
      intro member
      obtain ⟨item, isShare, same⟩ := List.mem_map.mp member
      have isOwner := of_decide_eq_true (List.mem_filter.mp isShare).2
      refine other ?_
      rw [← Arg.bytes.inj same]
      exact isOwner
    have on : ∀ effect ∈ (share owner node items).map itemWrite,
        effect.On ((share owner node items).map fun item => item.1.asBytes) := by
      intro effect member
      obtain ⟨item, isShare, rfl⟩ := List.mem_map.mp member
      exact List.mem_map_of_mem isShare
    rw [each, ExpiringMap.applyAll_of_on on apart,
      ← ((mirrors.ready node).uncapped.represents clock).get?]
    exact mirrors.foreign data node other

/-- `mset` leaves the shards with what the one server is left with. -/
theorem Mirrors.mset (mirrors : Mirrors (routeOf md5 ring) clock.monotonic shards link)
    (owned : ∀ key, ∃ node, ClusterClient.nodeFor md5 ring key = some node)
    (deliverable : Deliverable ((.ofString "MSET" :: items.flatMap flat).map Arg.wire))
    (schedules : ClusterClient.Schedules schedule
      (items.map fun item => ClusterClient.nodeFor md5 ring item.1).dedup)
    (one : next.Ready) (wrote : link.Wrote clock items next) :
    ∃ after, ClusterClient.mset md5 ring clock items schedule shards = some after ∧
      Mirrors (routeOf md5 ring) clock.monotonic after next := by
  let owner (item : Arg × Arg) : Option Text := ClusterClient.nodeFor md5 ring item.1
  obtain ⟨groups, collected⟩ := @ScatterGather.exists_collect _ _ _ _ owner flat items
    fun item _ => owned item.1
  have visits : ∀ node, ∃ left : Link, left.Ready ∧
      (shards node).Wrote clock (share owner node items) left ∧
        (share owner node items = [] → left = shards node) ∧
        (share owner node items ≠ [] → (shards node).request clock
          (.ofString "MSET" :: (share owner node items).flatMap flat) =
            some (OK.normal, left)) := by
    intro node
    have ready := mirrors.ready node
    by_cases nothing : share owner node items = []
    · rw [nothing]
      exact ⟨shards node, ready, (ready.uncapped.represents clock).get?, fun _ => rfl,
        fun some => absurd rfl some⟩
    · have within :
          Deliverable ((.ofString "MSET" :: (share owner node items).flatMap flat).map Arg.wire) :=
        Deliverable.of_sublist ((List.filter_sublist.flatMap flat).cons_cons _) deliverable
      obtain ⟨left, requested, idle, view⟩ := ready.mset nothing within
      exact ⟨left, idle, view, fun none => absurd none nothing, fun _ => requested⟩
  choose left idle views unused used using visits
  refine ⟨left, ?_, mirrors.wrote idle one wrote views⟩
  have exchanged := @exchange_requests _ clock groups (fun flat => .ofString "MSET" :: flat)
    schedule shards left (fun _ => OK.normal) ?_ ?_ ?_
  · have fine : (groups.entries.map fun _ => [OK.normal]).any (·.any Value.isError) = false := by
      rw [List.any_map]
      exact List.any_eq_false.mpr fun _ _ => Bool.false_ne_true
    rw [ClusterClient.mset, show collect (fun item => ClusterClient.nodeFor md5 ring item.1)
      (fun item => [item.1, item.2]) items = some groups from collected, Option.bind_some,
      exchanged, Option.bind_some]
    dsimp only
    rw [fine]
    rfl
  · intro node
    cases isGroup : groups.get? node with
    | none =>
        have nothing := ScatterGather.share_of_absent collected isGroup
        rw [countP_of_dedup schedules, if_pos nothing]
        rfl
    | some group =>
        obtain ⟨nonempty, -⟩ :=
          (ScatterGather.mem_collect collected).mp (OrderedDict.get?_eq_some_iff.mp isGroup)
        rw [countP_of_dedup schedules, if_neg nonempty]
        rfl
  · intro node group isGroup
    obtain ⟨nonempty, rfl⟩ :=
      (ScatterGather.mem_collect collected).mp (OrderedDict.get?_eq_some_iff.mp isGroup)
    exact used node nonempty
  · intro node absent
    exact unused node (ScatterGather.share_of_absent collected absent)

end Mset

end MiniCache
