import MiniCache.ClusterMaps
import MiniCache.ReplyFrames
import Mathlib.Algebra.BigOperators.Pi

/-!
# Deleting the keys that match a pattern

`ClusterClient.delete_pattern` starts one task for each shard of its list, which asks the
shard for the matching keys and has them deleted batch by batch.  A schedule says which task
is served next; two tasks may purge one shard.

What carries the proof is that a task that has its list still has before it every matching key
that is left on its shard, whoever deletes, and that the shard counts the keys it removes.
-/

namespace MiniCache

/-- `DEL_BATCH`. -/
def DEL_BATCH : Nat := 500

/-- `_cmd_keys`, whatever `fnmatch.fnmatchcase` is. -/
def cmdKeysBy (fnmatch : Arg → Arg → Bool) : Handler := fun clock store args =>
  match args with
  | [] =>
      let listed := store.keys clock.monotonic
      (.ok (.list (listed.1.map .arg)), listed.2)
  | [pattern] =>
      let listed := store.keys clock.monotonic
      let matching := listed.1.filter fun key => fnmatch key (key.like pattern)
      (.ok (.list (matching.map .arg)), listed.2)
  | _ => (.error .wrongArity, store)

theorem cmdKeysBy_fnmatchcase : cmdKeysBy fnmatchcase = cmdKeys := rfl

/-- `dispatch`, whatever `fnmatch.fnmatchcase` is. -/
def dispatchBy (fnmatch : Arg → Arg → Bool) (clock : Clock) (store : Store)
    (command : List Arg) : Except Raised Value × Store :=
  match command with
  | [] => dispatch clock store []
  | head :: args =>
      let name := upper (toText head)
      if Command.ofName name = some .keys then replyTo name (cmdKeysBy fnmatch clock store args)
      else dispatch clock store (head :: args)

theorem dispatchBy_fnmatchcase : dispatchBy fnmatchcase = dispatch := by
  funext clock store command
  cases command with
  | nil => rfl
  | cons head args =>
      simp only [dispatchBy, dispatch]
      split_ifs with isKeys
      · rw [isKeys]
        rfl
      · rfl

/-- `_bytes_list`. -/
def bytesList : Value → Option (List Bytes)
  | .list items => items.mapM fun
      | .arg (.bytes data) => some data
      | _ => none
  | _ => none

/-- `_integer`. -/
def integer : Value → Option Int
  | .int number => some number
  | _ => none

/-- `_roundtrip` with a shard: the reply that the client reads, or none when it raises. -/
def roundtripBy (fnmatch : Arg → Arg → Bool) (clock : Clock) (parts : List Arg) (store : Store) :
    Option Value × Store :=
  match readCommand (encodeCommand parts) with
  | .ok (some command, _) =>
      match dispatchBy fnmatch clock store (command.map .bytes) with
      | (.ok reply, after) =>
          match readReply (encode reply) with
          | .ok (value, _) => (if value.isError then none else some value, after)
          | .error _ => (none, after)
      | (.error _, after) => (none, after)
  | _ => (none, store)

/-- Where a `purge` stands: before its `KEYS`, before a batch of the keys that are left, with
the number of keys deleted so far, or at its end. -/
inductive Purge
  | listing
  | deleting (left : List Bytes) (deleted : Int)
  | returned (deleted : Int)
  | raised
deriving DecidableEq

/-- What a `purge` has returned. -/
def Purge.count : Purge → Option Int
  | .returned deleted => some deleted
  | _ => none

def Purge.Over : Purge → Prop
  | .returned _ | .raised => True
  | _ => False

/-- The head of the loop over the batches. -/
def Purge.next (left : List Bytes) (deleted : Int) : Purge :=
  if left = [] then .returned deleted else .deleting left deleted

/-- `delete_pattern` under way: the shards, and a task for each node of the list. -/
structure PatternPurge where
  shards : Text → Store
  tasks : List (Text × Purge)

namespace PatternPurge

def start (nodes : List Text) (shards : Text → Store) : PatternPurge :=
  ⟨shards, nodes.map fun node => (node, .listing)⟩

variable (fnmatch : Arg → Arg → Bool) (clock : Clock) (pattern : Arg)

/-- What a task sends next, if it is not over, and what it makes of the reply. -/
def exchange (store : Store) : Purge → Purge × Store
  | .listing =>
      let answered := roundtripBy fnmatch clock [.str "KEYS".toList, pattern] store
      match answered.1.bind bytesList with
      | some keys => (.next keys 0, answered.2)
      | none => (.raised, answered.2)
  | .deleting left deleted =>
      let batch := (left.take DEL_BATCH).map Arg.bytes
      let answered := roundtripBy fnmatch clock (.str "DEL".toList :: batch) store
      match answered.1.bind integer with
      | some count => (.next (left.drop DEL_BATCH) (deleted + count), answered.2)
      | none => (.raised, answered.2)
  | finished => (finished, store)

/-- A task is served. -/
def step (purge : PatternPurge) (number : Nat) : PatternPurge :=
  match purge.tasks[number]? with
  | none => purge
  | some (node, task) =>
      let exchanged := exchange fnmatch clock pattern (purge.shards node) task
      ⟨Function.update purge.shards node exchanged.2, purge.tasks.set number (node, exchanged.1)⟩

def run (purge : PatternPurge) (schedule : List Nat) : PatternPurge :=
  schedule.foldl (step fnmatch clock pattern) purge

/-- `sum(counts)`, when every task has returned. -/
def result (purge : PatternPurge) : Option Int :=
  (purge.tasks.mapM fun entry : Text × Purge => entry.2.count).map List.sum

/-- Every task has returned or raised. -/
def Over (purge : PatternPurge) : Prop := ∀ entry ∈ purge.tasks, entry.2.Over

end PatternPurge

section Shards

variable {fnmatch : Arg → Arg → Bool} {clock : Clock} {store : Store} {pattern : Arg}

/-- Whether a key matches a pattern that a shard has received. -/
def wanted (fnmatch : Arg → Arg → Bool) (pattern key : Arg) : Bool :=
  fnmatch key (key.like (.bytes pattern.wire))

/-- A command reaches the shard, and its reply the client. -/
theorem roundtripBy_eq {parts : List Arg} {reply : Value} {after : Store}
    (deliverable : Deliverable (parts.map Arg.wire))
    (dispatched : dispatchBy fnmatch clock store ((parts.map Arg.wire).map .bytes) =
      (.ok reply, after))
    (sendable : reply.Sendable) (fine : reply.normal.isError = false) :
    roundtripBy fnmatch clock parts store = (some reply.normal, after) := by
  have sent := readCommand_append deliverable []
  have read := readReply_encode sendable []
  rw [List.append_nil] at sent read
  unfold roundtripBy
  rw [sent]
  simp only [dispatched, read, fine, Bool.false_eq_true, if_false]

theorem bytesList_normal {keys : List Arg} {listed : List Bytes}
    (bytes : keys = listed.map .bytes) :
    bytesList (Value.normal (.list (keys.map .arg))) = some listed := by
  subst bytes
  rw [Value.normal, Value.normalAll_eq_map]
  induction listed with
  | nil => rfl
  | cons data listed ih =>
      simp only [bytesList, List.map_cons, List.mapM_cons] at ih ⊢
      rw [ih]
      rfl

/-- Keys that came to a shard in commands. -/
def Received (keys : List Arg) : Prop :=
  ∀ key ∈ keys, ∃ data : Bytes, key = .bytes data ∧ data.length ≤ MAX_BULK_LENGTH

theorem Received.of_subset {keys others : List Arg} (received : Received keys)
    (subset : ∀ key ∈ others, key ∈ keys) : Received others :=
  fun key member => received key (subset key member)

theorem Received.eq_map {keys : List Arg} (received : Received keys) :
    ∃ listed : List Bytes, keys = listed.map .bytes := by
  induction keys with
  | nil => exact ⟨[], rfl⟩
  | cons key keys ih =>
      obtain ⟨data, rfl, -⟩ := received key (List.mem_cons_self ..)
      obtain ⟨listed, rfl⟩ := ih fun other member => received other (List.mem_cons_of_mem _ member)
      exact ⟨data :: listed, rfl⟩

/-- The shard lists its live keys that match. -/
theorem exchange_listing (scheduled : Store.Scheduled store)
    (short : pattern.wire.length ≤ MAX_BULK_LENGTH)
    (received : Received (store.live clock.monotonic).keys)
    (few : ((store.live clock.monotonic).keys.filter (wanted fnmatch pattern)).length ≤
      MAX_ARRAY_LENGTH) :
    ∃ listed : List Bytes,
      (store.live clock.monotonic).keys.filter (wanted fnmatch pattern) = listed.map .bytes ∧
        PatternPurge.exchange fnmatch clock pattern store .listing =
          (.next listed 0, (store.keys clock.monotonic).2) := by
  have within : Received ((store.live clock.monotonic).keys.filter (wanted fnmatch pattern)) :=
    received.of_subset fun key member => List.mem_of_mem_filter member
  obtain ⟨listed, bytes⟩ := within.eq_map
  refine ⟨listed, bytes, ?_⟩
  have dispatched : dispatchBy fnmatch clock store
      ((([.str "KEYS".toList, pattern] : List Arg).map Arg.wire).map .bytes) =
        (.ok (.list (((store.live clock.monotonic).keys.filter (wanted fnmatch pattern)).map .arg)),
          (store.keys clock.monotonic).2) := by
    have name : upper (toText (.bytes (Arg.str "KEYS".toList).wire)) = "KEYS".toList := by
      decide +kernel
    have found : Command.ofName "KEYS".toList = some .keys := by decide +kernel
    simp only [List.map_cons, List.map_nil, dispatchBy, name, found, if_true, cmdKeysBy, replyTo,
      Store.keys_result store clock.monotonic scheduled]
    rfl
  have sendable : Value.Sendable (.list
      (((store.live clock.monotonic).keys.filter (wanted fnmatch pattern)).map .arg)) := by
    refine ⟨by rw [List.length_map]; exact few, Value.allSendable_iff.mpr fun item member => ?_⟩
    obtain ⟨key, here, rfl⟩ := List.mem_map.mp member
    obtain ⟨data, rfl, size⟩ := within key here
    exact size
  have deliverable : Deliverable (([.str "KEYS".toList, pattern] : List Arg).map Arg.wire) := by
    refine ⟨(by decide : 2 ≤ MAX_ARRAY_LENGTH), ?_⟩
    simp only [List.map_cons, List.map_nil, List.forall_mem_cons]
    exact ⟨by decide, short, List.forall_mem_nil _⟩
  unfold PatternPurge.exchange
  rw [roundtripBy_eq deliverable dispatched sendable rfl]
  simp only [Option.bind_some, bytesList_normal bytes]

/-- `DEL` takes the keys out of the live view and counts those that were in it. -/
theorem delLoop_live (clock : Clock) (keys : List Arg) (store : Store) :
    Store.Keeps store (delLoop clock keys store).2 ∧
      ((delLoop clock keys store).2.live clock.monotonic).entries =
        (store.live clock.monotonic).entries.filter (fun entry => entry.1 ∉ keys) ∧
      (delLoop clock keys store).1 +
        ((delLoop clock keys store).2.live clock.monotonic).size =
          (store.live clock.monotonic).size := by
  induction keys generalizing store with
  | nil => exact ⟨.refl store, by simp [delLoop], Nat.zero_add _⟩
  | cons key keys ih =>
      obtain ⟨keeps, entries, counted⟩ := ih (store.delete clock.monotonic key).2
      have popped := Store.live_delete store clock.monotonic key
      simp only [delLoop]
      refine ⟨(Store.keeps_delete store clock.monotonic key).trans keeps, ?_, ?_⟩
      · rw [entries, popped, OrderedDict.pop, OrderedDict.filterEntries, List.filter_filter]
        refine List.filter_congr fun entry _ => ?_
        by_cases same : entry.1 = key <;> simp [same]
      · have removed := (store.live clock.monotonic).size_pop key
        rw [← Store.delete_result] at removed
        rw [popped] at counted
        omega

/-- The shard deletes a batch. -/
theorem exchange_deleting {left : List Bytes} {batch : List Arg} {deleted : Int}
    (nonempty : left ≠ []) (short : ∀ data ∈ left, data.length ≤ MAX_BULK_LENGTH)
    (batched : batch = (left.take DEL_BATCH).map Arg.bytes) :
    PatternPurge.exchange fnmatch clock pattern store (.deleting left deleted) =
      (.next (left.drop DEL_BATCH) (deleted + (delLoop clock batch store).1),
        (delLoop clock batch store).2) := by
  have length : batch.length ≤ DEL_BATCH := by simp [batched]
  have several : ¬ batch.length < 1 := by
    have positive := List.length_pos_iff.mpr nonempty
    simp only [batched, List.length_map, List.length_take, DEL_BATCH]
    omega
  have wires : (batch.map Arg.wire).map Arg.bytes = batch := by
    simp only [batched, List.map_map]
    exact List.map_congr_left fun _ _ => rfl
  have dispatched : dispatchBy fnmatch clock store
      (((.str "DEL".toList :: batch).map Arg.wire).map .bytes) =
        (.ok (.int (delLoop clock batch store).1), (delLoop clock batch store).2) := by
    have name : upper (toText (.bytes (Arg.str "DEL".toList).wire)) = "DEL".toList := by
      decide +kernel
    have found : Command.ofName "DEL".toList = some .del := by decide +kernel
    have other : ¬ (some Command.del = some Command.keys) := by decide
    rw [List.map_cons, List.map_cons, wires]
    simp only [dispatchBy, dispatch, name, found, if_neg other, Command.handler, cmdDel,
      if_neg several, replyTo]
  have deliverable : Deliverable ((.str "DEL".toList :: batch).map Arg.wire) := by
    refine ⟨?_, ?_⟩
    · rw [List.length_map, List.length_cons]
      exact (Nat.succ_le_succ length).trans (by decide)
    · rw [List.map_cons, List.forall_mem_cons]
      refine ⟨by decide, fun data member => ?_⟩
      simp only [batched, List.map_map, List.mem_map] at member
      obtain ⟨key, here, rfl⟩ := member
      exact short key (List.mem_of_mem_take here)
  have sendable : Value.Sendable (.int (delLoop clock batch store).1) :=
    natAbs_small_of_le ((delLoop_le batch store).trans length) (by decide)
  simp only [PatternPurge.exchange, ← batched, roundtripBy_eq deliverable dispatched sendable rfl]
  rfl

end Shards

section Tasks

variable {fnmatch : Arg → Arg → Bool} {clock : Clock} {store : Store} {pattern : Arg}
  {isWanted : Arg → Bool} {dict other last : OrderedDict Arg Content} {task : Purge}

/-- The second dictionary is the first without some keys that are wanted. -/
structure Thinner (isWanted : Arg → Bool) (dict other : OrderedDict Arg Content) : Prop where
  rest : (other.entries.filter fun entry => !isWanted entry.1) =
    dict.entries.filter fun entry => !isWanted entry.1
  sublist : other.entries.Sublist dict.entries

theorem Thinner.refl (dict : OrderedDict Arg Content) : Thinner isWanted dict dict :=
  ⟨rfl, List.Sublist.refl _⟩

theorem Thinner.trans (first : Thinner isWanted dict other) (second : Thinner isWanted other last) :
    Thinner isWanted dict last :=
  ⟨second.rest.trans first.rest, second.sublist.trans first.sublist⟩

theorem Thinner.keys (thinner : Thinner isWanted dict other) : other.keys.Sublist dict.keys :=
  thinner.sublist.map Prod.fst

/-- The keys that are missing are counted. -/
theorem Thinner.countP (thinner : Thinner isWanted dict other) {count : Nat}
    (size : count + other.size = dict.size) :
    count + other.keys.countP isWanted = dict.keys.countP isWanted := by
  have parts (some : OrderedDict Arg Content) : some.size = some.keys.countP isWanted +
      (some.entries.filter fun entry => !isWanted entry.1).length := by
    have both := @List.length_eq_countP_add_countP _ (fun entry => isWanted entry.1) some.entries
    rw [OrderedDict.keys, List.countP_map, ← List.countP_eq_length_filter]
    simpa [OrderedDict.size, Function.comp_def] using both
  have same := congrArg List.length thinner.rest
  rw [parts dict, parts other] at size
  omega

/-- The keys that a task says it has deleted. -/
def Purge.deleted : Purge → Int
  | .deleting _ deleted | .returned deleted => deleted
  | .listing | .raised => 0

/-- A task with its list has before it every wanted key that is left. -/
def Purge.Sound (isWanted : Arg → Bool) (dict : OrderedDict Arg Content) : Purge → Prop
  | .listing => True
  | .deleting left _ => left ≠ [] ∧
      (∀ data ∈ left, isWanted (.bytes data) = true ∧ data.length ≤ MAX_BULK_LENGTH) ∧
      ∀ key ∈ dict.keys, isWanted key = true → ∃ data ∈ left, key = .bytes data
  | .returned _ => ∀ key ∈ dict.keys, isWanted key = false
  | .raised => False

theorem Purge.Sound.mono (sound : task.Sound isWanted dict)
    (fewer : ∀ key ∈ other.keys, key ∈ dict.keys) : task.Sound isWanted other := by
  cases task with
  | listing => trivial
  | deleting left deleted =>
      exact ⟨sound.1, sound.2.1, fun key member => sound.2.2 key (fewer key member)⟩
  | returned deleted => exact fun key member => sound key (fewer key member)
  | raised => exact sound

/-- At the head of the loop the keys before a task are those that are left. -/
theorem Purge.sound_next {left : List Bytes} {deleted : Int}
    (short : ∀ data ∈ left, isWanted (.bytes data) = true ∧ data.length ≤ MAX_BULK_LENGTH)
    (covers : ∀ key ∈ dict.keys, isWanted key = true → ∃ data ∈ left, key = .bytes data) :
    (Purge.next left deleted).Sound isWanted dict := by
  unfold Purge.next
  split_ifs with done
  · intro key member
    rw [Bool.eq_false_iff]
    intro isWanted
    obtain ⟨data, here, -⟩ := covers key member isWanted
    rw [done] at here
    cases here
  · exact ⟨done, short, covers⟩

theorem Purge.deleted_next (left : List Bytes) (deleted : Int) :
    (Purge.next left deleted).deleted = deleted := by
  unfold Purge.next
  split_ifs <;> rfl

/-- How many turns a task needs, if a number of keys is wanted. -/
def Purge.turns (bound : Nat) : Purge → Nat
  | .listing => bound + 1
  | .deleting left _ => left.length
  | .returned _ | .raised => 0

theorem Purge.turns_next (bound : Nat) (left : List Bytes) (deleted : Int) :
    (Purge.next left deleted).turns bound = left.length := by
  unfold Purge.next
  split_ifs with done
  · rw [done]
    rfl
  · rfl

/-- What an exchange does to the shard and to the task. -/
structure Exchanged (isWanted : Arg → Bool) (now : Time) (store : Store) (task : Purge)
    (next : Purge × Store) : Prop where
  keeps : Store.Keeps store next.2
  thinner : Thinner isWanted (store.live now) (next.2.live now)
  sound : next.1.Sound isWanted (next.2.live now)
  counted : next.1.deleted + ((next.2.live now).keys.countP isWanted : Int) =
    task.deleted + ((store.live now).keys.countP isWanted : Int)
  sooner : ∀ bound, (store.live now).keys.countP isWanted ≤ bound →
    next.1.turns bound = 0 ∨ next.1.turns bound < task.turns bound

theorem exchanged (scheduled : Store.Scheduled store)
    (short : pattern.wire.length ≤ MAX_BULK_LENGTH)
    (received : Received (store.live clock.monotonic).keys)
    (few : (store.live clock.monotonic).keys.countP (wanted fnmatch pattern) ≤ MAX_ARRAY_LENGTH)
    (sound : task.Sound (wanted fnmatch pattern) (store.live clock.monotonic)) :
    Exchanged (wanted fnmatch pattern) clock.monotonic store task
      (PatternPurge.exchange fnmatch clock pattern store task) := by
  cases task with
  | returned deleted => exact ⟨.refl store, .refl _, sound, rfl, fun _ _ => Or.inl rfl⟩
  | raised => exact sound.elim
  | listing =>
      rw [List.countP_eq_length_filter] at few
      obtain ⟨listed, bytes, done⟩ := exchange_listing scheduled short received few
      have live : (store.keys clock.monotonic).2.live clock.monotonic =
          store.live clock.monotonic := Store.live_sweep
      have inList (key : Arg) : (key ∈ (store.live clock.monotonic).keys ∧
          wanted fnmatch pattern key = true) ↔ ∃ data ∈ listed, .bytes data = key := by
        rw [← List.mem_filter, bytes, List.mem_map]
      rw [done]
      refine ⟨Store.keeps_sweep store clock.monotonic, live.symm ▸ .refl _, ?_, ?_, ?_⟩
      · rw [live]
        refine Purge.sound_next (fun data member => ?_) fun key member isWanted => ?_
        · obtain ⟨here, isWanted⟩ := (inList (.bytes data)).mpr ⟨data, member, rfl⟩
          obtain ⟨same, equal, size⟩ := received _ here
          cases equal
          exact ⟨isWanted, size⟩
        · obtain ⟨data, here, same⟩ := (inList key).mp ⟨member, isWanted⟩
          exact ⟨data, here, same.symm⟩
      · rw [live, Purge.deleted_next]
        rfl
      · intro bound within
        rw [List.countP_eq_length_filter, bytes, List.length_map] at within
        rw [Purge.turns_next]
        exact Or.inr (Nat.lt_succ_of_le within)
  | deleting left deleted =>
      obtain ⟨nonempty, sizes, covers⟩ := sound
      generalize batched : (left.take DEL_BATCH).map Arg.bytes = batch
      have inBatch {data : Bytes} (early : data ∈ left.take DEL_BATCH) : Arg.bytes data ∈ batch :=
        batched ▸ List.mem_map_of_mem early
      obtain ⟨keeps, entries, size⟩ := delLoop_live clock batch store
      have thinner : Thinner (wanted fnmatch pattern) (store.live clock.monotonic)
          ((delLoop clock batch store).2.live clock.monotonic) := by
        refine ⟨?_, entries ▸ List.filter_sublist⟩
        rw [entries, List.filter_filter]
        refine List.filter_congr fun entry _ => ?_
        cases isWanted : wanted fnmatch pattern entry.1 with
        | true => rfl
        | false =>
            have outside : entry.1 ∉ batch := by
              rw [← batched]
              intro member
              obtain ⟨data, here, same⟩ := List.mem_map.mp member
              rw [← same, (sizes data (List.mem_of_mem_take here)).1] at isWanted
              cases isWanted
            simp [outside]
      have counted := thinner.countP size
      rw [exchange_deleting nonempty (fun data member => (sizes data member).2) batched.symm]
      refine ⟨keeps, thinner, ?_, ?_, fun bound _ => ?_⟩
      · refine Purge.sound_next (fun data member => sizes data (List.mem_of_mem_drop member))
          fun key member isWanted => ?_
        obtain ⟨data, here, rfl⟩ := covers key (thinner.keys.subset member) isWanted
        refine ⟨data, ?_, rfl⟩
        -- what is still there was not in the batch
        obtain ⟨entry, among, same⟩ := List.mem_map.mp member
        rw [entries, List.mem_filter, same] at among
        have outside : data ∉ left.take DEL_BATCH := fun early =>
          of_decide_eq_true among.2 (inBatch early)
        rw [← List.take_append_drop DEL_BATCH left, List.mem_append] at here
        exact here.resolve_left outside
      · rw [Purge.deleted_next]
        show deleted + ((delLoop clock batch store).1 : Int) + _ =
          deleted + ((store.live clock.monotonic).keys.countP (wanted fnmatch pattern) : Int)
        rw [← counted, Nat.cast_add, Int.add_assoc]
      · rw [Purge.turns_next, List.length_drop]
        have positive := List.length_pos_iff.mpr nonempty
        refine Or.inr ?_
        show left.length - DEL_BATCH < left.length
        unfold DEL_BATCH
        omega

end Tasks

namespace PatternPurge

variable {fnmatch : Arg → Arg → Bool} {clock : Clock} {pattern : Arg} {nodes : List Text}
  {shards : Text → Store} {purge : PatternPurge} {number : Nat} {node : Text} {task : Purge}

/-- The live contents of a shard. -/
def live (clock : Clock) (shards : Text → Store) (node : Text) : OrderedDict Arg Content :=
  (shards node).live clock.monotonic

/-- How many keys of a shard match the pattern. -/
def owed (fnmatch : Arg → Arg → Bool) (clock : Clock) (pattern : Arg) (shards : Text → Store)
    (node : Text) : Nat :=
  (live clock shards node).keys.countP (wanted fnmatch pattern)

/-- What the shards of a client hold: each a store in order, with keys that came in commands,
of which no more match than a reply may list. -/
structure Holding (fnmatch : Arg → Arg → Bool) (clock : Clock) (pattern : Arg)
    (nodes : List Text) (shards : Text → Store) : Prop where
  scheduled : ∀ node ∈ nodes, Store.Scheduled (shards node)
  received : ∀ node ∈ nodes, Received (live clock shards node).keys
  few : ∀ node ∈ nodes, owed fnmatch clock pattern shards node ≤ MAX_ARRAY_LENGTH

/-- Where all purges together stand. -/
structure Sound (fnmatch : Arg → Arg → Bool) (clock : Clock) (pattern : Arg)
    (nodes : List Text) (shards : Text → Store) (purge : PatternPurge) : Prop where
  places : purge.tasks.map Prod.fst = nodes
  others : ∀ node ∉ nodes, purge.shards node = shards node
  scheduled : ∀ node ∈ nodes, Store.Scheduled (purge.shards node)
  thinner : ∀ node ∈ nodes, Thinner (wanted fnmatch pattern) (live clock shards node)
    (live clock purge.shards node)
  tasks : ∀ entry ∈ purge.tasks,
    entry.2.Sound (wanted fnmatch pattern) (live clock purge.shards entry.1)
  counted : (purge.tasks.map fun entry => entry.2.deleted).sum +
      ∑ node ∈ nodes.toFinset, (owed fnmatch clock pattern purge.shards node : Int) =
    ∑ node ∈ nodes.toFinset, (owed fnmatch clock pattern shards node : Int)

theorem sound_start (holding : Holding fnmatch clock pattern nodes shards) :
    Sound fnmatch clock pattern nodes shards (start nodes shards) where
  places := by simp [start, Function.comp_def]
  others := fun _ _ => rfl
  scheduled := holding.scheduled
  thinner := fun _ _ => .refl _
  tasks := by
    intro entry member
    obtain ⟨node, -, rfl⟩ := List.mem_map.mp member
    trivial
  counted := by simp [start, Function.comp_def, Purge.deleted]

/-- What a turn of a task does to its shard and to the task itself. -/
theorem Sound.exchanged (sound : Sound fnmatch clock pattern nodes shards purge)
    (holding : Holding fnmatch clock pattern nodes shards)
    (short : pattern.wire.length ≤ MAX_BULK_LENGTH)
    (found : purge.tasks[number]? = some (node, task)) :
    node ∈ nodes ∧ Exchanged (wanted fnmatch pattern) clock.monotonic (purge.shards node) task
      (exchange fnmatch clock pattern (purge.shards node) task) := by
  have member := List.mem_of_getElem? found
  have listed : node ∈ nodes := sound.places ▸ List.mem_map_of_mem (f := Prod.fst) member
  have thinner := sound.thinner node listed
  refine ⟨listed, MiniCache.exchanged (sound.scheduled node listed) short ?_ ?_
    (sound.tasks _ member)⟩
  · exact (holding.received node listed).of_subset fun key here => thinner.keys.subset here
  · exact (thinner.keys.countP_le).trans (holding.few node listed)

theorem Sound.step (sound : Sound fnmatch clock pattern nodes shards purge)
    (holding : Holding fnmatch clock pattern nodes shards)
    (short : pattern.wire.length ≤ MAX_BULK_LENGTH) (number : Nat) :
    Sound fnmatch clock pattern nodes shards (purge.step fnmatch clock pattern number) := by
  unfold PatternPurge.step
  split
  · exact sound
  · rename_i node task found
    obtain ⟨listed, exchanged⟩ := sound.exchanged holding short found
    generalize exchange fnmatch clock pattern (purge.shards node) task = next at exchanged
    dsimp only
    have member := List.mem_of_getElem? found
    obtain ⟨inside, here⟩ := List.getElem?_eq_some_iff.mp found
    obtain ⟨before, after, split, length, replaced⟩ :=
      @List.exists_of_set _ number (node, next.1) _ inside
    rw [here] at split
    have changed (other : Text) (different : other ≠ node) :
        Function.update purge.shards node next.2 other = purge.shards other :=
      Function.update_of_ne different ..
    have updated : Function.update purge.shards node next.2 node = next.2 :=
      Function.update_self ..
    refine ⟨?_, ?_, ?_, ?_, ?_, ?_⟩
    · rw [← sound.places, replaced, split]
      simp
    · intro other absent
      have different : other ≠ node := fun same => absent (same ▸ listed)
      dsimp only
      rw [changed other different]
      exact sound.others other absent
    · intro other among
      dsimp only
      by_cases same : other = node
      · rw [same, updated]
        exact exchanged.keeps.scheduled (sound.scheduled node listed)
      · rw [changed other same]
        exact sound.scheduled other among
    · intro other among
      unfold live
      dsimp only
      by_cases same : other = node
      · rw [same, updated]
        exact (sound.thinner node listed).trans exchanged.thinner
      · rw [changed other same]
        exact sound.thinner other among
    · intro entry among
      unfold live
      dsimp only
      rcases List.mem_or_eq_of_mem_set among with old | rfl
      · by_cases same : entry.1 = node
        · rw [same, updated]
          have before := sound.tasks entry old
          rw [same] at before
          exact before.mono fun key left => exchanged.thinner.keys.subset left
        · rw [changed entry.1 same]
          exact sound.tasks entry old
      · rw [updated]
        exact exchanged.sound
    · have sums : ∑ other ∈ nodes.toFinset,
          (owed fnmatch clock pattern (Function.update purge.shards node next.2) other : Int) =
            ((next.2.live clock.monotonic).keys.countP (wanted fnmatch pattern) : Int) +
              ∑ other ∈ nodes.toFinset \ {node},
                (owed fnmatch clock pattern purge.shards other : Int) := by
        rw [← Finset.sum_update_of_mem (List.mem_toFinset.mpr listed)]
        refine Finset.sum_congr rfl fun other _ => ?_
        unfold owed live
        by_cases same : other = node
        · rw [same, updated, Function.update_self]
        · rw [changed other same, Function.update_of_ne same]
      have before := sound.counted
      rw [Finset.sum_eq_add_sum_sdiff_singleton_of_mem (List.mem_toFinset.mpr listed), split] at before
      rw [replaced, sums]
      simp only [List.map_append, List.map_cons, List.sum_append, List.sum_cons] at before ⊢
      have here := exchanged.counted
      unfold owed live at before ⊢
      omega

theorem Sound.run (sound : Sound fnmatch clock pattern nodes shards purge)
    (holding : Holding fnmatch clock pattern nodes shards)
    (short : pattern.wire.length ≤ MAX_BULK_LENGTH) (schedule : List Nat) :
    Sound fnmatch clock pattern nodes shards (purge.run fnmatch clock pattern schedule) := by
  induction schedule generalizing purge with
  | nil => exact sound
  | cons number schedule ih => exact ih (sound.step holding short number)

section Progress

/-- A task that needs no more turns is over. -/
theorem over_of_turns {bound : Nat} (sound : task.Sound (wanted fnmatch pattern)
    (live clock shards node)) (done : task.turns bound = 0) : task.Over := by
  cases task with
  | listing => cases done
  | deleting left deleted => exact (sound.1 (List.length_eq_zero_iff.mp done)).elim
  | returned deleted => trivial
  | raised => trivial

/-- A task that is served as often as it needs is over. -/
theorem Sound.ends (sound : Sound fnmatch clock pattern nodes shards purge)
    (holding : Holding fnmatch clock pattern nodes shards)
    (short : pattern.wire.length ≤ MAX_BULK_LENGTH) {schedule : List Nat}
    (found : purge.tasks[number]? = some (node, task))
    (enough : task.turns (owed fnmatch clock pattern shards node) ≤ schedule.count number) :
    ∃ after, (purge.run fnmatch clock pattern schedule).tasks[number]? = some (node, after) ∧
      after.Over := by
  induction schedule generalizing purge task with
  | nil =>
      have ended := sound.tasks _ (List.mem_of_getElem? found)
      exact ⟨task, found, over_of_turns ended (Nat.le_zero.mp enough)⟩
  | cons first schedule ih =>
      have next := sound.step holding short first
      rw [List.count_cons] at enough
      by_cases same : first = number
      · subst same
        obtain ⟨listed, exchanged⟩ := sound.exchanged holding short found
        have served : (purge.step fnmatch clock pattern first).tasks[first]? = some (node,
            (exchange fnmatch clock pattern (purge.shards node) task).1) := by
          simp only [PatternPurge.step, found]
          exact List.getElem?_set_self (List.getElem?_eq_some_iff.mp found).1
        have fewer := exchanged.sooner (owed fnmatch clock pattern shards node)
          (sound.thinner node listed).keys.countP_le
        refine ih next served ?_
        rw [beq_self_eq_true, if_pos rfl] at enough
        rcases fewer with done | less
        · rw [done]
          exact Nat.zero_le _
        · omega
      · have waits : (purge.step fnmatch clock pattern first).tasks[number]? =
            some (node, task) := by
          unfold PatternPurge.step
          split
          · exact found
          · exact (List.getElem?_set_ne same).trans found
        have other : ¬ (first == number) = true := by simpa using same
        rw [if_neg other, Nat.add_zero] at enough
        exact ih next waits enough

end Progress

/-- What deleting a pattern comes to: no matching key is left, the others are as they were,
and the result is the number of keys that were removed. -/
structure Deletes (fnmatch : Arg → Arg → Bool) (clock : Clock) (pattern : Arg)
    (nodes : List Text) (shards : Text → Store) (purge : PatternPurge) : Prop where
  result : purge.result =
    some (∑ node ∈ nodes.toFinset, (owed fnmatch clock pattern shards node : Int))
  kept : ∀ node ∈ nodes, (live clock purge.shards node).entries =
    (live clock shards node).entries.filter fun entry => !wanted fnmatch pattern entry.1
  others : ∀ node ∉ nodes, purge.shards node = shards node

theorem Sound.deletes (sound : Sound fnmatch clock pattern nodes shards purge)
    (finished : purge.Over) : Deletes fnmatch clock pattern nodes shards purge := by
  have returned : ∀ entry ∈ purge.tasks, entry.2.count = some entry.2.deleted ∧
      ∀ key ∈ (live clock purge.shards entry.1).keys, wanted fnmatch pattern key = false := by
    rintro ⟨node, task⟩ member
    have ended := finished _ member
    have standing := sound.tasks _ member
    cases task with
    | listing | deleting => exact ended.elim
    | raised => exact standing.elim
    | returned deleted => exact ⟨rfl, standing⟩
  have none (node : Text) (listed : node ∈ nodes) :
      ∀ key ∈ (live clock purge.shards node).keys, wanted fnmatch pattern key = false := by
    rw [← sound.places] at listed
    obtain ⟨entry, member, rfl⟩ := List.mem_map.mp listed
    exact (returned entry member).2
  refine ⟨?_, fun node listed => ?_, sound.others⟩
  · have counts : purge.tasks.mapM (fun entry : Text × Purge => entry.2.count) =
        some (purge.tasks.map fun entry => entry.2.deleted) :=
      mapM_eq_some fun entry member => (returned entry member).1
    have owes : ∑ node ∈ nodes.toFinset,
        (owed fnmatch clock pattern purge.shards node : Int) = 0 := by
      refine Finset.sum_eq_zero fun node listed => ?_
      have gone := none node (List.mem_toFinset.mp listed)
      rw [owed, List.countP_eq_zero.mpr fun key member => by rw [gone key member]; nofun]
      rfl
    have counted := sound.counted
    rw [owes, add_zero] at counted
    rw [PatternPurge.result, counts, Option.map_some, counted]
  · rw [← (sound.thinner node listed).rest]
    refine (List.filter_eq_self.mpr fun entry member => ?_).symm
    rw [none node listed entry.1 (List.mem_map_of_mem (f := Prod.fst) member)]
    rfl

/-- Whatever the order in which the tasks are served, they end, and deleting a pattern deletes
the matching keys of the shards and no others. -/
theorem delete_pattern_deletes (fnmatch : Arg → Arg → Bool) (clock : Clock) (pattern : Arg)
    (nodes : List Text) (shards : Text → Store) (schedule : List Nat)
    (holding : Holding fnmatch clock pattern nodes shards)
    (short : pattern.wire.length ≤ MAX_BULK_LENGTH) :
    let purge := (start nodes shards).run fnmatch clock pattern schedule
    ((∀ number node, nodes[number]? = some node →
        owed fnmatch clock pattern shards node + 1 ≤ schedule.count number) → purge.Over) ∧
      (purge.Over → Deletes fnmatch clock pattern nodes shards purge) := by
  intro purge
  have begins := sound_start holding
  have sound := begins.run holding short schedule
  refine ⟨fun enough entry member => ?_, sound.deletes⟩
  obtain ⟨number, found⟩ := List.mem_iff_getElem?.mp member
  have place : nodes[number]? = some entry.1 := by
    rw [← sound.places, List.getElem?_map, found]
    rfl
  have waits : (start nodes shards).tasks[number]? = some (entry.1, .listing) := by
    simp only [start, List.getElem?_map, place, Option.map_some]
  obtain ⟨after, here, finished⟩ := begins.ends holding short waits (enough number entry.1 place)
  rw [Option.some.inj (found.symm.trans here)]
  exact finished

/-- A store with some keys. -/
def stored (keys : List Bytes) : Store :=
  keys.foldl (fun store key => store.set 0 (.bytes key) (.bytes [49]) none) (.init 0 .noeviction)

theorem scheduled_stored (keys : List Bytes) : Store.Scheduled (stored keys) := by
  have all (store : Store) (scheduled : Store.Scheduled store) : Store.Scheduled
      (keys.foldl (fun store key => store.set 0 (.bytes key) (.bytes [49]) none) store) := by
    induction keys generalizing store with
    | nil => exact scheduled
    | cons key keys ih =>
        exact ih _ ((Store.keeps_set store 0 (.bytes key) (.bytes [49]) none).scheduled scheduled)
  exact all _ (Store.scheduled_init 0 .noeviction)

/-- Shard `a` holds `u`, `uu` and `k`, and shard `b` holds `u`. -/
def twoShards (node : Text) : Store :=
  if node = ['a'] then stored [[117], [117, 117], [107]] else stored [[117]]

/-- The tasks of three nodes take their turns, two of them with one shard. -/
def inTurns : List Nat := [0, 2, 1, 2, 0, 1, 0, 2]

theorem delete_pattern_deletes_twoShards :
    let purge := (start [['a'], ['b'], ['a']] twoShards).run fnmatchcase .epoch (.str ['u', '*'])
      inTurns
    purge.result = some 3 ∧ ((purge.shards ['a']).live 0).keys = [.bytes [107]] ∧
      Deletes fnmatchcase .epoch (.str ['u', '*']) [['a'], ['b'], ['a']] twoShards purge := by
  have holding : Holding fnmatchcase .epoch (.str ['u', '*']) [['a'], ['b'], ['a']]
      twoShards := by
    have keysA : (live .epoch twoShards ['a']).keys =
        [.bytes [117], .bytes [117, 117], .bytes [107]] := by decide +kernel
    have keysB : (live .epoch twoShards ['b']).keys = [.bytes [117]] := by decide +kernel
    refine ⟨fun node _ => ?_, fun node listed => ?_, fun node listed => ?_⟩
    · unfold twoShards
      split_ifs <;> exact scheduled_stored _
    · have each (data : Bytes) (size : data.length ≤ 2) :
          ∃ same : Bytes, Arg.bytes data = .bytes same ∧ same.length ≤ MAX_BULK_LENGTH :=
        ⟨data, rfl, size.trans (by decide)⟩
      simp only [List.mem_cons, List.not_mem_nil, or_false] at listed
      rcases listed with rfl | rfl | rfl
      · rw [keysA]
        simp only [Received, List.forall_mem_cons]
        exact ⟨each _ (by decide), each _ (by decide), each _ (by decide), nofun⟩
      · rw [keysB]
        simp only [Received, List.forall_mem_cons]
        exact ⟨each _ (by decide), nofun⟩
      · rw [keysA]
        simp only [Received, List.forall_mem_cons]
        exact ⟨each _ (by decide), each _ (by decide), each _ (by decide), nofun⟩
    · refine List.countP_le_length.trans ?_
      simp only [List.mem_cons, List.not_mem_nil, or_false] at listed
      rcases listed with rfl | rfl | rfl
      · rw [keysA]
        decide
      · rw [keysB]
        decide
      · rw [keysA]
        decide
  have owedA : owed fnmatchcase .epoch (.str ['u', '*']) twoShards ['a'] = 2 := by decide +kernel
  have owedB : owed fnmatchcase .epoch (.str ['u', '*']) twoShards ['b'] = 1 := by decide +kernel
  have done := delete_pattern_deletes fnmatchcase .epoch (.str ['u', '*']) [['a'], ['b'], ['a']]
    twoShards inTurns holding (by decide)
  refine ⟨by decide +kernel, by decide +kernel, done.2 (done.1 fun number node place => ?_)⟩
  match number with
  | 0 | 2 =>
      cases place
      rw [owedA]
      decide
  | 1 =>
      cases place
      rw [owedB]
      decide
  | other + 3 => cases place

end PatternPurge

end MiniCache
