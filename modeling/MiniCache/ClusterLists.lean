import MiniCache.ClusterScatters
import Mathlib.Algebra.BigOperators.Ring.Finset

/-!
# Calls that ask every shard

`keys`, `dbsize` and `flush_all` send one command to every shard.  The shards list between
them the keys that the one server lists, each of them once.
-/

namespace MiniCache

open ExpiringMap (mapDeadline)
open ScatterGather (share)

section Each

variable {clock : Clock} {nodes schedule : List Text} {shards after : Shards}
  {parts : List Arg} {replies : Text → Value}

theorem foldl_setItem_entries {dict : OrderedDict Text Unit} (nodup : nodes.Nodup)
    (apart : ∀ node ∈ nodes, node ∉ dict.keys) :
    (nodes.foldl (fun dict node => dict.setItem node ()) dict).entries =
      dict.entries ++ nodes.map (·, ()) := by
  induction nodes generalizing dict with
  | nil => exact (List.append_nil _).symm
  | cons node nodes ih =>
      obtain ⟨new, nodup⟩ := List.nodup_cons.mp nodup
      obtain ⟨first, rest⟩ := List.forall_mem_cons.mp apart
      have entries := OrderedDict.setItem_of_not_mem first ()
      rw [List.foldl_cons, ih nodup, entries, List.append_assoc]
      · rfl
      · intro other member
        rw [OrderedDict.keys, entries, List.map_append, List.mem_append, not_or]
        refine ⟨rest other member, fun isFirst => new ?_⟩
        have same : other = node := List.mem_singleton.mp isFirst
        rwa [← same]

theorem nodeDict_entries (nodup : nodes.Nodup) :
    (ClusterClient.nodeDict nodes).entries = nodes.map (·, ()) :=
  foldl_setItem_entries nodup fun _ _ => List.not_mem_nil

theorem get?_nodeDict (nodup : nodes.Nodup) (node : Text) :
    (ClusterClient.nodeDict nodes).get? node = none ↔ node ∉ nodes := by
  rw [OrderedDict.get?_eq_none_iff, OrderedDict.keys, nodeDict_entries nodup, List.map_map]
  simp

/-- Every shard answers the command in its turn. -/
theorem eachShard_eq (nodup : nodes.Nodup)
    (schedules : ClusterClient.Schedules schedule (nodes.map some))
    (requested : ∀ node ∈ nodes, (shards node).request clock parts =
      some (replies node, after node))
    (fine : ∀ node ∈ nodes, (replies node).isError = false)
    (others : ∀ node ∉ nodes, after node = shards node) :
    ClusterClient.eachShard clock nodes parts schedule shards =
      some (nodes.map fun node => (node, replies node), after) := by
  have once : ∀ node, schedule.countP (· = node) =
      if ((ClusterClient.nodeDict nodes).get? node).isSome then 1 else 0 := by
    intro node
    have distinct : (nodes.map some).dedup = nodes.map some :=
      List.Nodup.dedup (nodup.map (Option.some_injective Text))
    rw [← distinct] at schedules
    rw [countP_of_dedup schedules]
    have nothing : share some node nodes = [] ↔ node ∉ nodes := by
      rw [share, List.filter_eq_nil_iff]
      simp only [Option.some.injEq, decide_eq_true_eq]
      exact ⟨fun apart member => apart node member rfl, fun absent _ member same =>
        absent (same ▸ member)⟩
    by_cases member : node ∈ nodes
    · rw [if_neg fun none => nothing.mp none member, if_pos]
      rw [Option.isSome_iff_ne_none, ne_eq, get?_nodeDict nodup]
      exact not_not.mpr member
    · rw [if_pos (nothing.mpr member), (get?_nodeDict nodup node).mpr member]
      rfl
  have exchanged := @exchange_requests _ clock (ClusterClient.nodeDict nodes) (fun _ => parts)
    schedule shards after replies once ?_ ?_
  · have quiet : ((ClusterClient.nodeDict nodes).entries.map fun entry =>
        [replies entry.1]).any (·.any Value.isError) = false := by
      rw [nodeDict_entries nodup, List.map_map, List.any_map]
      refine List.any_eq_false.mpr fun node member => ?_
      simp [fine node member]
    rw [ClusterClient.eachShard, exchanged, Option.bind_some]
    dsimp only
    rw [quiet, if_neg Bool.false_ne_true, OrderedDict.keys, nodeDict_entries nodup,
      List.map_map, List.map_map, ← List.flatMap_def]
    have names : nodes.map (Prod.fst ∘ fun node => (node, ())) = nodes := List.map_id nodes
    have texts : nodes.flatMap ((fun entry : Text × Unit => [replies entry.1]) ∘ (·, ())) =
        nodes.map replies := List.flatMap_pure_eq_map replies nodes
    rw [names, texts, ← List.map_prod_left_eq_zip]
  · intro node group isGroup
    refine requested node ?_
    by_contra absent
    rw [(get?_nodeDict nodup node).mpr absent] at isGroup
    cases isGroup
  · exact fun node absent => others node ((get?_nodeDict nodup node).mp absent)

end Each

section Found

variable {now : Time} {isWanted : Arg → Bool} {link : Link}

/-- The live keys that are wanted. -/
def Link.found (now : Time) (isWanted : Arg → Bool) (link : Link) : List Bytes :=
  ((link.server.store.live now).keys.filter isWanted).map Arg.wire

/-- The keys of a shard are bytes. -/
theorem Link.Ready.map_found (ready : link.Ready) :
    (link.found now isWanted).map Arg.bytes =
      (link.server.store.live now).keys.filter isWanted := by
  have received : Received (link.server.store.live now).keys :=
    storable_keys ready.reachable.storing
  obtain ⟨listed, bytes⟩ :=
    (received.of_subset fun _ member => List.mem_of_mem_filter (p := isWanted) member).eq_map
  have same : link.found now isWanted = listed := by
    rw [Link.found, bytes, List.map_map]
    exact List.map_id listed
  rw [same, bytes]

theorem Link.Ready.mem_found (ready : link.Ready) {data : Bytes} :
    data ∈ link.found now isWanted ↔ isWanted (.bytes data) = true ∧
      ((link.server.store.live now).get? (.bytes data)).isSome = true := by
  have member : data ∈ link.found now isWanted ↔
      Arg.bytes data ∈ (link.found now isWanted).map Arg.bytes := by
    rw [List.mem_map]
    exact ⟨fun here => ⟨data, here, rfl⟩, fun ⟨_, here, same⟩ => Arg.bytes.inj same ▸ here⟩
  rw [member, ready.map_found, List.mem_filter, OrderedDict.get?_isSome_iff, and_comm]

theorem Link.Ready.nodup_found (ready : link.Ready) : (link.found now isWanted).Nodup := by
  refine List.Nodup.of_map Arg.bytes ?_
  rw [ready.map_found]
  exact (OrderedDict.nodup_keys _).filter _

variable {route : Bytes → Option Text} {shards : Shards} {nodes : List Text}

/-- A key of a shard is a key of the one server, which the shard owns. -/
theorem Mirrors.mem_found (mirrors : Mirrors route now shards link) {node : Text}
    {data : Bytes} : data ∈ (shards node).found now isWanted ↔
      data ∈ link.found now isWanted ∧ route data = some node := by
  rw [(mirrors.ready node).mem_found, mirrors.one.mem_found]
  by_cases owned : route data = some node
  · rw [mirrors.own data node owned]
    simp only [owned, and_true]
  · rw [mirrors.foreign data node owned]
    simp [owned]

theorem Mirrors.length_found_le (mirrors : Mirrors route now shards link) (node : Text) :
    ((shards node).found now isWanted).length ≤ (link.found now isWanted).length :=
  ((mirrors.ready node).nodup_found.subperm fun _ member =>
    (mirrors.mem_found.mp member).1).length_le

/-- The shards list between them the keys of the one server. -/
theorem Mirrors.perm_found (mirrors : Mirrors route now shards link) (nodup : nodes.Nodup)
    (owned : ∀ data, ∃ node ∈ nodes, route data = some node) :
    (nodes.flatMap fun node => (shards node).found now isWanted).Perm
      (link.found now isWanted) := by
  refine (List.perm_ext_iff_of_nodup ?_ mirrors.one.nodup_found).mpr fun data => ?_
  · refine List.nodup_flatMap.mpr ⟨fun node _ => (mirrors.ready node).nodup_found, ?_⟩
    refine nodup.imp fun different data here there => different ?_
    have first := (mirrors.mem_found.mp here).2
    exact Option.some.inj (first.symm.trans (mirrors.mem_found.mp there).2)
  · rw [List.mem_flatMap]
    constructor
    · rintro ⟨node, -, member⟩
      exact (mirrors.mem_found.mp member).1
    · intro member
      obtain ⟨node, listed, owner⟩ := owned data
      exact ⟨node, listed, mirrors.mem_found.mpr ⟨member, owner⟩⟩

end Found

section Questions

variable {clock : Clock} {link next : Link} {pattern : Arg} {value : Value}

theorem names_keys : Names .keys (.ofString "KEYS") := names_name .keys

theorem names_dbsize : Names .dbsize (.ofString "DBSIZE") := names_name .dbsize

theorem names_flushdb : Names .flushdb (.ofString "FLUSHDB") := names_name .flushdb

namespace Link

/-- The keys of a shard that match a pattern. -/
def matching (clock : Clock) (pattern : Arg) (link : Link) : List Bytes :=
  link.found clock.monotonic (wanted fnmatchcase pattern)

/-- The number of keys of a shard. -/
def population (clock : Clock) (link : Link) : Nat :=
  (link.found clock.monotonic fun _ => true).length

theorem Ready.keys_answer (ready : link.Ready) :
    Command.keys.answer clock.time (link.server.store.onWall clock)
      (link.server.store.live clock.monotonic).keys ([pattern].map Arg.asBytes) =
        .ok (.list (((link.matching clock pattern).map Arg.bytes).map .arg)) := by
  rw [matching, ready.map_found]
  rfl

theorem Ready.dbsize_answer :
    Command.dbsize.answer clock.time (link.server.store.onWall clock)
      (link.server.store.live clock.monotonic).keys [] =
        .ok (.int (link.population clock)) := by
  have all : (link.server.store.live clock.monotonic).keys.filter (fun _ => true) =
      (link.server.store.live clock.monotonic).keys := List.filter_eq_self.mpr fun _ _ => rfl
  rw [population, found, List.length_map, all]
  rfl

/-- A shard lists the keys that match a pattern, unless they are too many. -/
theorem Ready.keys (ready : link.Ready)
    (deliverable : Deliverable (([.ofString "KEYS", pattern] : List Arg).map Arg.wire))
    (few : (link.matching clock pattern).length ≤ MAX_ARRAY_LENGTH) :
    ∃ value next, link.request clock [.ofString "KEYS", pattern] = some (value, next) ∧
      value.isError = false ∧ bytesList value = some (link.matching clock pattern) ∧ next.Ready ∧
      ∀ key, (next.server.store.live clock.monotonic).get? key =
        (link.server.store.live clock.monotonic).get? key := by
  have presentable : Command.keys.Presentable clock link.server.store
      ([pattern].map Arg.asBytes) := by
    show (List.filter _ _).length ≤ MAX_ARRAY_LENGTH
    rw [matching, ← List.length_map Arg.bytes, ready.map_found] at few
    exact few
  obtain ⟨next, requested, idle, view⟩ :=
    ready.look names_keys (by decide) deliverable ready.keys_answer presentable
  exact ⟨_, next, requested, rfl, bytesList_normal rfl, idle, view⟩

/-- A list that is read is not too long. -/
theorem Ready.few_keys (ready : link.Ready)
    (deliverable : Deliverable (([.ofString "KEYS", pattern] : List Arg).map Arg.wire))
    (asked : link.request clock [.ofString "KEYS", pattern] = some (value, next)) :
    (link.matching clock pattern).length ≤ MAX_ARRAY_LENGTH := by
  obtain ⟨reply, left, dispatched, read⟩ := ready.returned names_keys deliverable asked
  have answer := ready.answer names_keys clock [pattern]
  rw [ready.keys_answer] at answer
  have same : reply = .list (((link.matching clock pattern).map Arg.bytes).map .arg) :=
    Except.ok.inj ((congrArg Prod.fst dispatched).symm.trans answer)
  rw [same] at read
  have few := count_of_read read
  rwa [List.length_map, List.length_map] at few

theorem Ready.dbsize (ready : link.Ready)
    (small : link.population clock < 10 ^ maxStrDigits) :
    ∃ next, link.request clock [.ofString "DBSIZE"] =
        some (.int (link.population clock), next) ∧ next.Ready ∧
      ∀ key, (next.server.store.live clock.monotonic).get? key =
        (link.server.store.live clock.monotonic).get? key := by
  have presentable : Command.dbsize.Presentable clock link.server.store [] := by
    intro _
    have size : (link.server.store.live clock.monotonic).size = link.population clock := by
      have answers := Value.int.inj (Except.ok.inj (@Ready.dbsize_answer clock link))
      rw [OrderedDict.keys, List.length_map] at answers
      exact_mod_cast answers
    rwa [size]
  have deliverable : Deliverable (([.ofString "DBSIZE"] : List Arg).map Arg.wire) := by decide
  exact ready.look names_dbsize (by decide) deliverable Ready.dbsize_answer presentable

/-- A number that is read is not too long. -/
theorem Ready.small_dbsize (ready : link.Ready)
    (asked : link.request clock [.ofString "DBSIZE"] = some (value, next)) :
    link.population clock < 10 ^ maxStrDigits := by
  have deliverable : Deliverable (([.ofString "DBSIZE"] : List Arg).map Arg.wire) := by decide
  obtain ⟨reply, left, dispatched, read⟩ := ready.returned names_dbsize deliverable asked
  have answer := ready.answer names_dbsize clock []
  rw [List.map_nil, Ready.dbsize_answer] at answer
  have same : reply = .int (link.population clock) :=
    Except.ok.inj ((congrArg Prod.fst dispatched).symm.trans answer)
  rw [same] at read
  exact small_of_read read

/-- A shard is emptied. -/
theorem Ready.flushdb (ready : link.Ready) (clock : Clock) :
    ∃ next, link.request clock [.ofString "FLUSHDB"] = some (OK.normal, next) ∧ next.Ready ∧
      ∀ key, (next.server.store.live clock.monotonic).get? key = none := by
  have replied : (dispatch clock link.server.store [(Arg.ofString "FLUSHDB").asBytes]).1 =
      .ok OK := by
    exact ready.answer names_flushdb clock []
  have dispatched : dispatch clock link.server.store
      ((Arg.ofString "FLUSHDB").asBytes :: ([] : List Arg).map Arg.asBytes) =
        (.ok OK, (dispatch clock link.server.store [(Arg.ofString "FLUSHDB").asBytes]).2) :=
    Prod.ext replied rfl
  obtain ⟨next, requested, idle, store⟩ :=
    ready.request names_flushdb (by decide) dispatched fitsLine_OK
  refine ⟨next, requested, idle, fun key => ?_⟩
  have known : Command.ofCommand [(Arg.ofString "FLUSHDB").asBytes] = some .flushdb :=
    names_flushdb.known
  rw [store, get?_dispatch ready.uncapped, commandEffects, known]
  rfl

end Link

end Questions

section Everywhere

variable {route : Bytes → Option Text} {clock : Clock} {nodes schedule : List Text}
  {shards : Shards} {link next : Link} {pattern : Arg} {value : Value}

theorem mapM_read {α β γ : Type} {items : List α} {pair : α → β} {read : β → Option γ}
    {value : α → γ} (reads : ∀ item ∈ items, read (pair item) = some (value item)) :
    (items.map pair).mapM read = some (items.map value) := by
  rw [List.mapM_map]
  exact mapM_eq_some reads

/-- The shards list what the one server lists, in another order. -/
theorem Mirrors.keys (mirrors : Mirrors route clock.monotonic shards link) (nodup : nodes.Nodup)
    (owned : ∀ data, ∃ node ∈ nodes, route data = some node)
    (schedules : ClusterClient.Schedules schedule (nodes.map some))
    (deliverable : Deliverable (([.ofString "KEYS", pattern] : List Arg).map Arg.wire))
    (asked : link.request clock [.ofString "KEYS", pattern] = some (value, next)) :
    ∃ listed after, ClusterClient.keys clock nodes pattern schedule shards =
        some (listed, after) ∧
      listed.Perm (link.matching clock pattern) ∧ Outcome.ofKeys value =
        some (.keys (link.matching clock pattern)) ∧ value.isError = false ∧
      Mirrors route clock.monotonic after next := by
  have few := mirrors.one.few_keys deliverable asked
  obtain ⟨reply, left, requested, fine, listed, idle, view⟩ := mirrors.one.keys deliverable few
  obtain ⟨rfl, rfl⟩ := Prod.mk.inj (Option.some.inj (asked.symm.trans requested))
  have visits : ∀ node, ∃ (value : Value) (left : Link),
      (node ∈ nodes → (shards node).request clock [.ofString "KEYS", pattern] =
        some (value, left)) ∧ value.isError = false ∧
      bytesList value = some ((shards node).matching clock pattern) ∧ left.Ready ∧
      (∀ key, (left.server.store.live clock.monotonic).get? key =
        ((shards node).server.store.live clock.monotonic).get? key) ∧
      (node ∉ nodes → left = shards node) := by
    intro node
    have fewer := (mirrors.length_found_le node).trans few
    obtain ⟨reply, left, requested, fine, listed, idle, view⟩ :=
      (mirrors.ready node).keys deliverable fewer
    by_cases member : node ∈ nodes
    · exact ⟨reply, left, fun _ => requested, fine, listed, idle, view, fun absent =>
        absurd member absent⟩
    · exact ⟨reply, shards node, fun present => absurd present member, fine, listed,
        mirrors.ready node, fun _ => rfl, fun _ => rfl⟩
  choose replies after asks quiet lists idles views others using visits
  refine ⟨nodes.flatMap fun node => (shards node).matching clock pattern, after, ?_,
    mirrors.perm_found nodup owned, ?_, fine, mirrors.looked idles idle views view⟩
  · have read : (nodes.map fun node => (node, replies node)).mapM
        (fun reply => bytesList reply.2) =
          some (nodes.map fun node => (shards node).matching clock pattern) :=
      mapM_read fun node _ => lists node
    rw [ClusterClient.keys, eachShard_eq nodup schedules asks (fun node _ => quiet node) others,
      Option.bind_some]
    dsimp only
    rw [read, Option.map_some, List.flatMap_def]
  · rw [Outcome.ofKeys, listed]
    rfl

/-- The shards have as many keys as the one server. -/
theorem Mirrors.dbsize (mirrors : Mirrors route clock.monotonic shards link)
    (nodup : nodes.Nodup) (owned : ∀ data, ∃ node ∈ nodes, route data = some node)
    (schedules : ClusterClient.Schedules schedule (nodes.map some))
    (asked : link.request clock [.ofString "DBSIZE"] = some (value, next)) :
    ∃ after, ClusterClient.dbsize clock nodes schedule shards =
        some ((link.population clock : Int), after) ∧ value = .int (link.population clock) ∧
      Mirrors route clock.monotonic after next := by
  have small := mirrors.one.small_dbsize asked
  obtain ⟨left, requested, idle, view⟩ := mirrors.one.dbsize small
  obtain ⟨rfl, rfl⟩ := Prod.mk.inj (Option.some.inj (asked.symm.trans requested))
  have visits : ∀ node, ∃ left : Link,
      (node ∈ nodes → (shards node).request clock [.ofString "DBSIZE"] =
        some (.int ((shards node).population clock), left)) ∧ left.Ready ∧
      (∀ key, (left.server.store.live clock.monotonic).get? key =
        ((shards node).server.store.live clock.monotonic).get? key) ∧
      (node ∉ nodes → left = shards node) := by
    intro node
    have smaller := (mirrors.length_found_le node).trans_lt small
    obtain ⟨left, requested, idle, view⟩ := (mirrors.ready node).dbsize smaller
    by_cases member : node ∈ nodes
    · exact ⟨left, fun _ => requested, idle, view, fun absent => absurd member absent⟩
    · exact ⟨shards node, fun present => absurd present member, mirrors.ready node, fun _ => rfl,
        fun _ => rfl⟩
  choose after asks idles views others using visits
  refine ⟨after, ?_, rfl, mirrors.looked idles idle views view⟩
  have total : (nodes.map fun node => (shards node).population clock).sum =
      link.population clock := by
    have same := (@Mirrors.perm_found _ (fun _ => true) _ _ _ _ mirrors nodup owned).length_eq
    rwa [List.length_flatMap] at same
  have read : (nodes.map fun node =>
      (node, Value.int ((shards node).population clock))).mapM
        (fun reply => (integer reply.2).map (reply.1, ·)) =
          some (nodes.map fun node => (node, ((shards node).population clock : Int))) :=
    mapM_read fun _ _ => rfl
  rw [ClusterClient.dbsize, ClusterClient.dbsizePerShard,
    eachShard_eq nodup schedules asks (fun _ _ => rfl) others, Option.bind_some]
  dsimp only
  rw [read, Option.map_some, Option.map_some]
  dsimp only
  rw [List.map_map, ← total, Nat.cast_list_sum, List.map_map]
  rfl

/-- The shards are emptied as the one server is. -/
theorem Mirrors.flushAll (mirrors : Mirrors route clock.monotonic shards link)
    (nodup : nodes.Nodup) (owned : ∀ data, ∃ node ∈ nodes, route data = some node)
    (schedules : ClusterClient.Schedules schedule (nodes.map some))
    (asked : link.request clock [.ofString "FLUSHDB"] = some (value, next)) :
    ∃ after, ClusterClient.flushAll clock nodes schedule shards = some after ∧
      value.isError = false ∧ Mirrors route clock.monotonic after next := by
  obtain ⟨left, requested, idle, empty⟩ := mirrors.one.flushdb clock
  obtain ⟨rfl, rfl⟩ := Prod.mk.inj (Option.some.inj (asked.symm.trans requested))
  have visits : ∀ node, ∃ left : Link,
      (node ∈ nodes → (shards node).request clock [.ofString "FLUSHDB"] =
        some (OK.normal, left)) ∧ left.Ready ∧
      (node ∈ nodes → ∀ key, (left.server.store.live clock.monotonic).get? key = none) ∧
      (node ∉ nodes → left = shards node) := by
    intro node
    obtain ⟨left, requested, idle, empty⟩ := (mirrors.ready node).flushdb clock
    by_cases member : node ∈ nodes
    · exact ⟨left, fun _ => requested, idle, fun _ => empty, fun absent => absurd member absent⟩
    · exact ⟨shards node, fun present => absurd present member, mirrors.ready node,
        fun present => absurd present member, fun _ => rfl⟩
  choose after asks idles empties others using visits
  refine ⟨after, ?_, rfl, idles, idle, fun data node isOwner => ?_, fun data node other => ?_⟩
  · rw [ClusterClient.flushAll, eachShard_eq nodup schedules asks (fun _ _ => rfl) others]
    rfl
  · obtain ⟨place, member, same⟩ := owned data
    obtain rfl := Option.some.inj (same.symm.trans isOwner)
    rw [empties place member, empty]
  · by_cases member : node ∈ nodes
    · exact empties node member _
    · rw [others node member]
      exact mirrors.foreign data node other

end Everywhere

end MiniCache
