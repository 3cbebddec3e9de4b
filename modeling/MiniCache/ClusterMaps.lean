import MiniCache.ClusterBatches
import MiniCache.RingMembers

/-!
# Scattered reads and writes

`mget` and `mset` send one command with many keys to each shard.  The values are those of
the keys one after the other, and the shards hold what setting the items one after the
other makes them hold.
-/

namespace MiniCache

open ScatterGather (collect share answered each serial serial_cons steps fill turns)

section Turns

variable {clock : Clock} {server : Server} {authed : Bool} {head : Bytes} {args : List Bytes}

/-- The names that the server answers itself. -/
def ownNames : List Text :=
  ["QUIT".toList, "AUTH".toList, "SYNC".toList, "INFO".toList, "BGREWRITEAOF".toList]

theorem Command.name_not_mem_ownNames (command : Command) : command.name ∉ ownNames := by
  cases command <;> decide +kernel

namespace Server

/-- A command with a name passes the gates of the server. -/
structure Passes (server : Server) (authed : Bool) (name : Text) : Prop where
  authed : authed = true
  replica : ¬ (server.replicaOf.isSome = true ∧ isWriteCommand name = true)
  memory : ¬ (name ∈ DENYOOM ∧ server.store.policy = .noeviction ∧
    server.store.overLimit = true)

variable (clock server authed) in
/-- Behind the special names stand the gates. -/
theorem handle_gates {found : Command} (named : upper (decodeAscii head) = found.name)
    (args : List Bytes) :
    (server.Passes authed found.name ∧ server.handle clock authed (head :: args) =
        { server with commandsProcessed := server.commandsProcessed + 1 }.execute clock
          authed found.name (received (head :: args))) ∨
      (¬ server.Passes authed found.name ∧ ∃ message, Value.FitsLine message ∧
        (server.handle clock authed (head :: args)).replies = [.error message]) := by
  have own := found.name_not_mem_ownNames
  simp only [ownNames, List.mem_cons, List.not_mem_nil, or_false, not_or] at own
  obtain ⟨quit, auth, sync, info, rewrite⟩ := own
  simp only [handle, named, if_neg quit, if_neg auth, if_neg sync, if_neg info, if_neg rewrite]
  by_cases locked : authed = false
  · rw [if_pos locked]
    refine Or.inr ⟨fun passes => ?_, _, ?_, rfl⟩
    · exact absurd (locked.symm.trans passes.authed) (by decide)
    · decide +kernel
  rw [if_neg locked]
  by_cases readonly : server.replicaOf.isSome = true ∧ isWriteCommand found.name = true
  · rw [if_pos readonly]
    refine Or.inr ⟨fun passes => passes.replica readonly, _, ?_, rfl⟩
    decide +kernel
  rw [if_neg readonly]
  by_cases full : found.name ∈ DENYOOM ∧ server.store.policy = .noeviction ∧
      server.store.overLimit = true
  · rw [if_pos full]
    refine Or.inr ⟨fun passes => passes.memory full, _, ?_, rfl⟩
    decide +kernel
  rw [if_neg full]
  exact Or.inl ⟨⟨Bool.of_not_eq_false locked, readonly, full⟩, rfl⟩

/-- The turn of a command whose handler returns a reply and evicts nothing. -/
theorem execute_returned {found : Command} {command : List Arg} {reply : Value} {left : Store}
    (known : Command.ofCommand command = some found)
    (returned : found.handler clock server.store command.tail = (.ok reply, left))
    (fine : reply.isError = false)
    (drained : isWriteCommand found.name = true → left.evicted = []) :
    let turn := server.execute clock authed found.name command
    turn.server.store = left ∧ turn.authed = authed ∧ turn.replies = [reply] ∧
      turn.next = .again := by
  obtain ⟨name, dispatched⟩ := dispatch_of_known known clock server.store
  rw [returned] at dispatched
  have outcome : dispatch clock server.store command = (.ok reply, left) := dispatched
  have accepted : Accepted (dispatch clock server.store command).1 := by
    rw [outcome]
    exact fine
  obtain ⟨records, recorded⟩ := toAofCommands_of_accepted accepted clock.time
  simp only [execute, outcome]
  by_cases writes : reply.isError = false ∧ isWriteCommand found.name = true
  · rw [if_pos writes, records_ok _ recorded]
    exact ⟨drain_of_nil (drained writes.2), rfl, rfl, rfl⟩
  · rw [if_neg writes]
    exact ⟨rfl, rfl, rfl, rfl⟩

end Server

end Turns

section Answers

variable {clock : Clock} {link next : Link} {head : Arg} {args : List Arg} {found : Command}
  {reply value : Value} {left : Store}

/-- An argument as the shard receives it. -/
def Arg.asBytes (arg : Arg) : Arg := .bytes arg.wire

theorem received_map_wire (parts : List Arg) :
    received (parts.map Arg.wire) = parts.map Arg.asBytes :=
  List.map_map

/-- A name as a shard receives it. -/
structure Names (found : Command) (head : Arg) : Prop where
  server : upper (decodeAscii head.wire) = found.name
  known : Command.ofName (upper (toText head.asBytes)) = some found

theorem names_name (found : Command) : Names found (.str found.name) := by
  cases found <;> exact ⟨by decide +kernel, by decide +kernel⟩

namespace Link

/-- The turn of the shard for a command whose handler returns a reply. -/
theorem turn_returned (quiet : link.Quiet) (names : Names found head)
    (deliverable : Deliverable ((head :: args).map Arg.wire))
    (passes : link.server.Passes link.authed found.name)
    (returned : found.handler clock link.server.store (args.map Arg.asBytes) = (.ok value, left))
    (fine : value.isError = false)
    (drained : isWriteCommand found.name = true → left.evicted = []) :
    ∃ served : Link, (link.write (encodeCommand (head :: args))).turn clock = some served ∧
      served.server.store = left ∧ served.authed = link.authed ∧ served.inbox = [] ∧
      served.outbox = encode value := by
  have taken := @turn_encodeCommand clock _ deliverable link.server link.authed [] link.outbox
  rw [List.append_nil] at taken
  rw [write, quiet.inbox, List.nil_append, taken]
  rcases Server.handle_gates clock link.server link.authed names.server (args.map Arg.wire) with
    ⟨-, executes⟩ | ⟨refused, -⟩
  swap
  · exact absurd passes refused
  let counted : Server :=
    { link.server with commandsProcessed := link.server.commandsProcessed + 1 }
  have known : Command.ofCommand (received ((head :: args).map Arg.wire)) = some found := by
    rw [received_map_wire]
    exact names.known
  have tail : (received ((head :: args).map Arg.wire)).tail = args.map Arg.asBytes := by
    rw [received_map_wire]
    rfl
  obtain ⟨store, authed, replies, again⟩ :=
    @Server.execute_returned clock counted link.authed found _ value left known
      (by rw [tail]; exact returned) fine drained
  rw [List.map_cons] at store authed replies again ⊢
  dsimp only
  rw [executes, if_pos again]
  refine ⟨_, rfl, store, authed, rfl, ?_⟩
  rw [replies, quiet.outbox]
  simp

end Link

open ClusterClient (roundtrip)

/-- A command that is answered without an error passed the gates. -/
theorem passes_of_roundtrip (quiet : link.Quiet) (names : Names found head)
    (deliverable : Deliverable ((head :: args).map Arg.wire))
    (done : roundtrip clock (head :: args) link = some (reply, next)) :
    link.server.Passes link.authed found.name := by
  rcases Server.handle_gates clock link.server link.authed names.server (args.map Arg.wire) with
    ⟨passes, -⟩ | ⟨-, message, fits, replies⟩
  · exact passes
  rw [roundtrip] at done
  obtain ⟨⟨found, served⟩, requested, done⟩ := Option.bind_eq_some_iff.mp done
  obtain ⟨-, read, -⟩ := (Link.request_eq_some_iff quiet.inbox deliverable).mp requested
  rw [List.map_cons, replies, quiet.outbox, List.nil_append, List.flatMap_singleton] at read
  have same := @readReply_encode (.error message) fits []
  rw [List.append_nil, read] at same
  obtain ⟨rfl, -⟩ := Prod.mk.inj (Except.ok.inj same)
  cases done

/-- What a round trip returns is what is read of the reply of the handler. -/
theorem roundtrip_returned (quiet : link.Quiet) (names : Names found head)
    (deliverable : Deliverable ((head :: args).map Arg.wire))
    (returned : found.handler clock link.server.store (args.map Arg.asBytes) = (.ok value, left))
    (fine : value.isError = false)
    (drained : isWriteCommand found.name = true → left.evicted = [])
    (done : roundtrip clock (head :: args) link = some (reply, next)) :
    readReply (encode value) = .ok (reply, next.outbox) ∧ next.server.store = left ∧
      next.inbox = [] := by
  have passes := passes_of_roundtrip quiet names deliverable done
  obtain ⟨served, taken, store, -, inbox, outbox⟩ :=
    Link.turn_returned quiet names deliverable passes returned fine drained
  rw [roundtrip, Link.request, taken, Option.bind_some, outbox] at done
  obtain ⟨⟨got, last⟩, read, done⟩ := Option.bind_eq_some_iff.mp done
  dsimp only at read done
  split_ifs at done
  cases done
  split at read
  · rename_i rest readRest
    cases read
    exact ⟨readRest, store, inbox⟩
  · cases read

end Answers

section Reads

open ClusterClient (get)

variable {clock : Clock} {link after : Link} {keys : List Arg} {answers : List Answer}

theorem names_get : Names .get (.ofString "GET") := names_name .get

theorem names_mget : Names .mget (.ofString "MGET") := names_name .mget

/-- A value that is read back is within the limits. -/
theorem sendable_of_bulk_read {found : Option Arg} {reply : Value} {rest : Bytes}
    (read : readReply (encode (.ofOption found)) = .ok (reply, rest)) :
    (Value.ofOption found).Sendable := by
  cases found with
  | none => trivial
  | some value =>
      rw [Value.ofOption, encode_arg] at read
      exact bulk_of_read read

/-- The keys of a shard one after the other, against the loop of `MGET`. -/
theorem serial_get (quiet : link.Quiet)
    (within : ∀ key ∈ keys, key.wire.length ≤ MAX_BULK_LENGTH)
    (done : serial (get clock) keys link = some (answers, after)) :
    let found := mgetLoop clock (keys.map Arg.asBytes) link.server.store
    found.2 = after.server.store ∧ (∀ item ∈ found.1, item.Sendable) ∧
      (found.1.map Value.normal).mapM optBytes = some answers ∧
      (keys ≠ [] → link.server.Passes link.authed Command.get.name) := by
  induction keys generalizing link answers with
  | nil =>
      obtain ⟨rfl, rfl⟩ := Prod.mk.inj (Option.some.inj done)
      exact ⟨rfl, by simp [mgetLoop], rfl, fun some => absurd rfl some⟩
  | cons key keys ih =>
      obtain ⟨answer, next, others, first, rest, rfl⟩ := serial_cons.mp done
      have deliverable : Deliverable ([Arg.ofString "GET", key].map Arg.wire) := by
        refine ⟨show 2 ≤ MAX_ARRAY_LENGTH by decide, ?_⟩
        have here := within key (List.mem_cons_self ..)
        simp only [List.map_cons, List.map_nil, List.forall_mem_cons, List.not_mem_nil,
          false_implies, implies_true, and_true]
        exact ⟨by decide, here⟩
      unfold ClusterClient.get at first
      obtain ⟨⟨reply, served⟩, answeredWith, first⟩ := Option.bind_eq_some_iff.mp first
      obtain ⟨_, shown, ⟨⟩⟩ := Option.map_eq_some_iff.mp first
      have passes := passes_of_roundtrip quiet names_get deliverable answeredWith
      let here := lookup clock link.server.store key.asBytes
      have fine : (Value.ofOption here.1).isError = false := by
        cases here.1 <;> rfl
      obtain ⟨read, store, inbox⟩ :=
        @roundtrip_returned clock link next _ _ .get reply (.ofOption here.1) here.2 quiet
          names_get deliverable rfl fine (fun writes => absurd writes (by decide +kernel)) answeredWith
      have sendable := sendable_of_bulk_read read
      have whole := readReply_encode sendable []
      rw [List.append_nil, read] at whole
      obtain ⟨rfl, outbox⟩ := Prod.mk.inj (Except.ok.inj whole)
      obtain ⟨left, items, all, -⟩ := ih ⟨inbox, outbox⟩
        (fun other member => within other (List.mem_cons_of_mem _ member)) rest
      rw [store] at left items all
      simp only [List.map_cons, mgetLoop]
      refine ⟨left, List.forall_mem_cons.mpr ⟨sendable, items⟩, ?_, fun _ => passes⟩
      rw [List.mapM_cons, shown, all]
      rfl

end Reads

section Mget

open ClusterClient (nodeFor mget getEach mgetAnswers Schedules get)

variable {md5 : Bytes → Nat} {ring : HashRing} {clock : Clock} {shards after : Shards}
  {schedule : List Text} {keys : List Arg} {answers : List Answer}

theorem countP_of_nodup {owners : List (Option Text)} (nodup : owners.Nodup)
    (owner : Option Text) :
    owners.countP (· = owner) = if owner ∈ owners then 1 else 0 := by
  induction owners with
  | nil => rfl
  | cons first owners ih =>
      rw [List.nodup_cons] at nodup
      rw [List.countP_cons, ih nodup.2]
      by_cases same : first = owner
      · subst same
        simp [nodup.1]
      · simp [same, Ne.symm same]

/-- When every owner takes one turn, a shard with a share takes one turn. -/
theorem countP_of_dedup {κ : Type} {owner : κ → Option Text} {requests : List κ}
    (schedules : Schedules schedule (requests.map owner).dedup) (node : Text) :
    schedule.countP (· = node) = if share owner node requests = [] then 0 else 1 := by
  have counts := schedules.countP_eq (· = some node)
  rw [List.countP_map, countP_of_nodup (List.nodup_dedup _)] at counts
  have here : schedule.countP (· = node) = _ :=
    Eq.trans (List.countP_congr fun first _ => by simp) counts
  rw [here]
  have owned : some node ∈ (requests.map owner).dedup ↔ share owner node requests ≠ [] := by
    rw [List.mem_dedup, List.mem_map, share, ne_eq, List.filter_eq_nil_iff]
    push Not
    simp
  by_cases nothing : share owner node requests = []
  · rw [if_pos nothing, if_neg fun member => owned.mp member nothing]
  · rw [if_neg nothing, if_pos (owned.mpr nothing)]

/-- The values of a shard to an `MGET`. -/
theorem receive_mget {link last : Link} (quiet : link.Quiet) (nonempty : keys ≠ [])
    (deliverable : Deliverable ((.ofString "MGET" :: keys).map Arg.wire))
    (done : serial (get clock) keys link = some (answers, last)) :
    ∃ (items : List Value) (served left : Link),
      steps (Link.turn clock) 1 (link.write (encodeCommand (.ofString "MGET" :: keys))) =
          some served ∧
        served.receive 1 = some ([.list items], left) ∧ items.length = keys.length ∧
        items.mapM optBytes = some answers ∧ left.server.store = last.server.store := by
  have sizes : ∀ key ∈ keys, key.wire.length ≤ MAX_BULK_LENGTH := fun key member =>
    deliverable.sizes _ (List.mem_map_of_mem (List.mem_cons_of_mem _ member))
  obtain ⟨store, items, all, passes⟩ := serial_get quiet sizes done
  let found := mgetLoop clock (keys.map Arg.asBytes) link.server.store
  have returned : Command.mget.handler clock link.server.store (keys.map Arg.asBytes) =
      (.ok (.list found.1), found.2) := by
    have some : ¬ (keys.map Arg.asBytes).length < 1 := by
      have positive := List.length_pos_iff.mpr nonempty
      rw [List.length_map]
      omega
    simp only [Command.handler, cmdMget, if_neg some, found]
  have gates : link.server.Passes link.authed Command.mget.name := by
    obtain ⟨authed, -, -⟩ := passes nonempty
    refine ⟨authed, fun replica => absurd replica.2 (by decide +kernel), fun memory => ?_⟩
    exact absurd memory.1 (by decide +kernel)
  obtain ⟨served, taken, after, authed, inbox, outbox⟩ :=
    Link.turn_returned quiet names_mget deliverable gates returned rfl
      fun writes => absurd writes (by decide +kernel)
  have count : found.1.length = keys.length := by
    rw [length_mgetLoop, List.length_map]
  have sendable : (Value.list found.1).Sendable := by
    refine ⟨?_, Value.allSendable_iff.mpr items⟩
    have few := deliverable.count
    rw [List.length_map, List.length_cons] at few
    omega
  have read := readReply_encode sendable []
  rw [List.append_nil, ← outbox] at read
  refine ⟨found.1.map Value.normal, served, { served with outbox := [] }, ?_, ?_, ?_, all, ?_⟩
  · rw [steps, taken]
    rfl
  · rw [Link.receive, readMany]
    simp only [bind, Except.bind, read, readMany, Value.normal, Value.normalAll_eq_map]
  · rw [List.length_map, count]
  · exact after.trans store

theorem mapM_eq_some {α β : Type} {read : α → Option β} {value : α → β} {items : List α}
    (reads : ∀ item ∈ items, read item = some (value item)) :
    items.mapM read = some (items.map value) := by
  induction items with
  | nil => rfl
  | cons item items ih =>
      rw [List.mapM_cons, reads item (List.mem_cons_self ..),
        ih fun other member => reads other (List.mem_cons_of_mem _ member)]
      rfl

/-- `mget` returns the values of its keys one after the other. -/
theorem mget_eq (quiet : ∀ node, (shards node).Quiet)
    (within : ∀ node, Deliverable
      ((.ofString "MGET" :: share (nodeFor md5 ring) node keys).map Arg.wire))
    (done : getEach md5 ring clock keys shards = some (answers, after))
    (schedules : Schedules schedule (keys.map (nodeFor md5 ring)).dedup) :
    ∃ left, mget md5 ring clock keys schedule shards = some (answers, left) ∧
      ∀ node, (left node).server.store = (after node).server.store := by
  have lengths := ScatterGather.length_each done
  obtain ⟨groups, collected⟩ :=
    @ScatterGather.exists_collect _ _ _ _ (fun item : Arg × Nat => nodeFor md5 ring item.1)
      (fun item => [item.2]) keys.zipIdx
      fun item member => ScatterGather.owned_of_each done (List.fst_mem_of_mem_zipIdx member)
  let found (node : Text) : List Answer :=
    (answered (nodeFor md5 ring) node keys answers).map Prod.snd
  have visits : ∀ node, ∃ (items : List Value) (left : Link),
      items.length = (share (nodeFor md5 ring) node keys).length ∧
        items.mapM optBytes = some (found node) ∧
        left.server.store = (after node).server.store ∧
        (share (nodeFor md5 ring) node keys = [] → left = shards node) ∧
        (share (nodeFor md5 ring) node keys ≠ [] → ∃ served : Link,
          steps (Link.turn clock) 1 ((shards node).write (encodeCommand
            (.ofString "MGET" :: share (nodeFor md5 ring) node keys))) = some served ∧
          served.receive 1 = some ([.list items], left)) := by
    intro node
    have served := ScatterGather.each_share done node
    by_cases nothing : share (nodeFor md5 ring) node keys = []
    · rw [nothing] at served ⊢
      obtain ⟨none, same⟩ := Prod.mk.inj (Option.some.inj served)
      refine ⟨[], shards node, rfl, ?_, by rw [same], fun _ => rfl, fun some => absurd rfl some⟩
      exact congrArg some none
    · obtain ⟨items, link, left, taken, received, count, shown, store⟩ :=
        receive_mget (quiet node) nothing (within node) served
      exact ⟨items, left, count, shown, store, fun none => absurd none nothing,
        fun _ => ⟨link, taken, received⟩⟩
  choose items left counts shown stores unused used using visits
  refine ⟨left, ?_, stores⟩
  have exchanged := @exchange_eq _ clock groups
    (fun indexes => [.ofString "MGET" :: indexes.map (keys.getD · (.bytes []))]) schedule shards
    left (fun node => [.list (items node)]) ?_ ?_
  · rw [mget, collected, Option.bind_some, exchanged, Option.bind_some]
    have read : ∀ entry ∈ groups.entries,
        mgetAnswers entry.2 [.list (items entry.1)] = some (entry.2.zip (found entry.1)) := by
      rintro ⟨node, group⟩ member
      have size := congrArg List.length
        (ScatterGather.map_getD_group (.bytes []) collected member)
      rw [List.length_map, ← counts] at size
      simp only [mgetAnswers, size, if_true, shown, Option.map_some]
    have all : groups.entries.mapM ((fun answer : (Text × List Nat) × List Value =>
          mgetAnswers answer.1.2 answer.2) ∘ fun entry => (entry, [Value.list (items entry.1)])) =
        some (groups.entries.map fun entry => entry.2.zip (found entry.1)) := mapM_eq_some read
    dsimp only
    rw [← List.map_prod_left_eq_zip, List.mapM_map, all, Option.map_some, ← List.flatMap_def,
      ScatterGather.fill_gathered lengths collected (by simp)]
  · intro node group isGroup
    have member := OrderedDict.get?_eq_some_iff.mp isGroup
    have batch := ScatterGather.map_getD_group (.bytes []) collected member
    have nonempty := ScatterGather.share_of_group collected member
    rw [countP_of_dedup schedules, if_neg nonempty, batch, List.flatMap_singleton]
    exact used node nonempty
  · intro node absent
    have nothing := ScatterGather.share_of_no_group collected absent
    exact ⟨by rw [countP_of_dedup schedules, if_pos nothing], unused node nothing⟩

end Mget

section Holdings

variable {store other : Store} {now : Time} {key value : Arg}

/-- A store but for its count of expired keys, which a `SET` of an expired key raises and
an `MSET` does not. -/
def Store.holdings (store : Store) : Store := { store with expiredKeys := 0 }

theorem Store.set_of_unlimited (unlimited : store.maxmemory = 0) :
    store.set now key value none =
      { store with writes := store.writes + 1 }.put key value none := by
  have within : ({ store with writes := store.writes + 1 }.put key value none).overLimit =
      false := by
    simp [Store.overLimit, Store.put, unlimited]
  simp [Store.set, Store.evict, within]

theorem Store.holdings_set (same : store.holdings = other.holdings)
    (unlimited : other.maxmemory = 0) :
    (store.set now key value none).holdings = (other.set now key value none).holdings := by
  have limit : store.maxmemory = 0 := (congrArg Store.maxmemory same).trans unlimited
  have put (store : Store) : ({ store with writes := store.writes + 1 }.put key value
      none).holdings = { store.holdings with writes := store.holdings.writes + 1 }.put key value
        none := rfl
  rw [Store.set_of_unlimited limit, Store.set_of_unlimited unlimited, put, put, same]

/-- Looking a key up first changes nothing in what a store holds after it is set. -/
theorem Store.holdings_existsKey_set (unlimited : store.maxmemory = 0) :
    ((store.existsKey now key).2.set now key value none).holdings =
      (store.set now key value none).holdings := by
  have entries {data : OrderedDict Arg Entry} (popped : data.pop key = store.data.pop key)
      (entry : Entry) : (data.setItem key entry).moveToEnd key =
        (store.data.setItem key entry).moveToEnd key := by
    apply OrderedDict.ext
    rw [OrderedDict.moveToEnd_setItem_entries, OrderedDict.moveToEnd_setItem_entries, popped]
  cases found : store.data.get? key with
  | none => simp only [Store.existsKey, Store.get, Store.fetch, found]
  | some entry =>
      by_cases expired : entry.isExpired now = true
      · have looked : (store.existsKey now key).2 = store.remove key true := by
          simp only [Store.existsKey, Store.get, Store.fetch, found, if_pos expired]
        have limit : (store.remove key true).maxmemory = 0 := by
          simp only [Store.remove, found, unlimited]
        rw [looked, Store.set_of_unlimited limit, Store.set_of_unlimited unlimited]
        simp only [Store.remove, found, Store.put, OrderedDict.get?_pop_self, Store.holdings,
          entries (OrderedDict.pop_of_not_mem (OrderedDict.key_not_mem_pop store.data key)), sub_zero]
      · have looked : (store.existsKey now key).2 =
            { store with data := store.data.moveToEnd key } := by
          simp only [Store.existsKey, Store.get, Store.fetch, found, if_neg expired]
        have limit : ({ store with data := store.data.moveToEnd key } : Store).maxmemory = 0 :=
          unlimited
        rw [looked, Store.set_of_unlimited limit, Store.set_of_unlimited unlimited]
        simp only [Store.put, OrderedDict.get?_moveToEnd, found, Store.holdings,
          entries (OrderedDict.pop_moveToEnd store.data key)]

end Holdings

section Mset

open ClusterClient (nodeFor mset set setEach Schedules)

variable {md5 : Bytes → Nat} {ring : HashRing} {clock : Clock} {shards after : Shards}
  {schedule : List Text} {items : List (Arg × Arg)} {replies : List Bool}

theorem names_set : Names .set (.ofString "SET") := names_name .set

theorem names_mset : Names .mset (.ofString "MSET") := names_name .mset

theorem fitsLine_OK : OK.Sendable := by
  show Value.FitsLine _
  decide +kernel

/-- What a handler leaves of an uncapped store is uncapped. -/
theorem Uncapped.handled {store left : Store} (uncapped : Uncapped store) {found : Command}
    {head : Arg} (names : Names found head) {args : List Arg} {reply : Value}
    (returned : found.handler clock store args = (.ok reply, left)) : Uncapped left := by
  have known : Command.ofCommand (head.asBytes :: args) = some found := names.known
  obtain ⟨name, dispatched⟩ := dispatch_of_known known clock store
  have same : (dispatch clock store (head.asBytes :: args)).2 = left := by
    rw [dispatched, List.tail_cons, returned]
    rfl
  rw [← same]
  exact uncapped.dispatched clock _

/-- An item as the arguments of `MSET`. -/
def flat (item : Arg × Arg) : List Arg := [item.1, item.2]

/-- The items of a shard one after the other, against the loop of `MSET` on a store that
holds the same. -/
theorem serial_set {link last : Link} {store : Store} (quiet : link.Quiet)
    (uncapped : Uncapped link.server.store)
    (within : ∀ item ∈ items, ∀ arg ∈ flat item, arg.wire.length ≤ MAX_BULK_LENGTH)
    (done : serial (set clock) items link = some (replies, last))
    (same : store.holdings = link.server.store.holdings) :
    (msetLoop clock ((items.flatMap flat).map Arg.asBytes) store).holdings =
        last.server.store.holdings ∧
      (items ≠ [] → link.server.Passes link.authed Command.set.name) := by
  induction items generalizing link replies store with
  | nil =>
      obtain ⟨rfl, rfl⟩ := Prod.mk.inj (Option.some.inj done)
      exact ⟨same, fun some => absurd rfl some⟩
  | cons item items ih =>
      obtain ⟨reply, next, others, first, rest, rfl⟩ := serial_cons.mp done
      have deliverable : Deliverable ([Arg.ofString "SET", item.1, item.2].map Arg.wire) := by
        refine ⟨show 3 ≤ MAX_ARRAY_LENGTH by decide, ?_⟩
        have here := within item (List.mem_cons_self ..)
        simp only [flat, List.forall_mem_cons, List.not_mem_nil, false_implies, implies_true,
          and_true] at here
        simp only [List.map_cons, List.map_nil, List.forall_mem_cons, List.not_mem_nil,
          false_implies, implies_true, and_true]
        exact ⟨by decide, here⟩
      unfold ClusterClient.set at first
      obtain ⟨⟨got, served⟩, answeredWith, ⟨⟩⟩ := Option.map_eq_some_iff.mp first
      have passes := passes_of_roundtrip quiet names_set deliverable answeredWith
      let left := (link.server.store.existsKey clock.monotonic item.1.asBytes).2.set
        clock.monotonic item.1.asBytes item.2.asBytes none
      have returned : Command.set.handler clock link.server.store
          ([item.1, item.2].map Arg.asBytes) = (.ok OK, left) := rfl
      have kept := uncapped.handled names_set returned
      obtain ⟨read, stored, inbox⟩ := roundtrip_returned quiet names_set deliverable returned
        rfl (fun _ => kept.drained) answeredWith
      have whole := @readReply_encode OK fitsLine_OK []
      rw [List.append_nil, read] at whole
      obtain ⟨rfl, outbox⟩ := Prod.mk.inj (Except.ok.inj whole)
      have here : (store.set clock.monotonic item.1.asBytes item.2.asBytes none).holdings =
          next.server.store.holdings := by
        rw [stored, Store.holdings_existsKey_set uncapped.unlimited]
        exact Store.holdings_set same uncapped.unlimited
      rw [← stored] at kept
      obtain ⟨holds, -⟩ := ih ⟨inbox, outbox⟩ kept
        (fun other member => within other (List.mem_cons_of_mem _ member)) rest here
      exact ⟨holds, fun _ => passes⟩

/-- The turn of a shard for an `MSET`. -/
theorem receive_mset {link last : Link} (quiet : link.Quiet)
    (uncapped : Uncapped link.server.store) (nonempty : items ≠ [])
    (deliverable : Deliverable ((.ofString "MSET" :: items.flatMap flat).map Arg.wire))
    (done : serial (set clock) items link = some (replies, last)) :
    ∃ served left : Link,
      steps (Link.turn clock) 1
          (link.write (encodeCommand (.ofString "MSET" :: items.flatMap flat))) =
          some served ∧
        served.receive 1 = some ([OK.normal], left) ∧
        left.server.store.holdings = last.server.store.holdings := by
  have within : ∀ item ∈ items, ∀ arg ∈ flat item, arg.wire.length ≤ MAX_BULK_LENGTH :=
    fun item member arg isPart => deliverable.sizes _ (List.mem_map_of_mem
      (List.mem_cons_of_mem _ (List.mem_flatMap.mpr ⟨item, member, isPart⟩)))
  obtain ⟨holds, passes⟩ := serial_set quiet uncapped within done rfl
  let left := msetLoop clock ((items.flatMap flat).map Arg.asBytes) link.server.store
  have returned : Command.mset.handler clock link.server.store
      ((items.flatMap flat).map Arg.asBytes) = (.ok OK, left) := by
    have length : ((items.flatMap flat).map Arg.asBytes).length = 2 * items.length := by
      rw [List.length_map, List.length_flatMap]
      simp [flat, Nat.mul_comm]
    have positive := List.length_pos_iff.mpr nonempty
    have even : ¬ (((items.flatMap flat).map Arg.asBytes).length < 2 ∨
        ((items.flatMap flat).map Arg.asBytes).length % 2 = 1) := by omega
    simp only [Command.handler, cmdMset, if_neg even, left]
  have gates : link.server.Passes link.authed Command.mset.name := by
    obtain ⟨authed, replica, -⟩ := passes nonempty
    refine ⟨authed, fun both => replica ⟨both.1, by decide +kernel⟩, fun memory => ?_⟩
    have unlimited := memory.2.2
    simp [Store.overLimit, uncapped.unlimited] at unlimited
  have kept := uncapped.handled names_mset returned
  obtain ⟨served, taken, after, authed, inbox, outbox⟩ :=
    Link.turn_returned quiet names_mset deliverable gates returned rfl fun _ => kept.drained
  have read := @readReply_encode OK fitsLine_OK []
  rw [List.append_nil, ← outbox] at read
  refine ⟨served, { served with outbox := [] }, ?_, ?_, ?_⟩
  · rw [steps, taken]
    rfl
  · rw [Link.receive, readMany]
    simp only [bind, Except.bind, read, readMany]
  · exact (congrArg Store.holdings after).trans holds

/-- `mset` leaves the shards with what setting its items one after the other leaves. -/
theorem mset_eq (quiet : ∀ node, (shards node).Quiet)
    (uncapped : ∀ node, Uncapped (shards node).server.store)
    (within : ∀ node, Deliverable ((.ofString "MSET" ::
      (share (fun item => nodeFor md5 ring item.1) node items).flatMap flat).map Arg.wire))
    (done : setEach md5 ring clock items shards = some (replies, after))
    (schedules : Schedules schedule (items.map fun item => nodeFor md5 ring item.1).dedup) :
    ∃ left, mset md5 ring clock items schedule shards = some left ∧
      ∀ node, (left node).server.store.holdings = (after node).server.store.holdings := by
  let owner (item : Arg × Arg) : Option Text := nodeFor md5 ring item.1
  obtain ⟨groups, collected⟩ := @ScatterGather.exists_collect _ _ _ _ owner flat items
    fun item member => ScatterGather.owned_of_each done member
  have visits : ∀ node, ∃ left : Link,
      left.server.store.holdings = (after node).server.store.holdings ∧
        (share owner node items = [] → left = shards node) ∧
        (share owner node items ≠ [] → ∃ served : Link,
          steps (Link.turn clock) 1 ((shards node).write (encodeCommand
            (.ofString "MSET" :: (share owner node items).flatMap flat))) = some served ∧
          served.receive 1 = some ([OK.normal], left)) := by
    intro node
    have served := ScatterGather.each_share done node
    by_cases nothing : share owner node items = []
    · rw [nothing] at served ⊢
      obtain ⟨-, same⟩ := Prod.mk.inj (Option.some.inj served)
      exact ⟨shards node, by rw [same], fun _ => rfl, fun some => absurd rfl some⟩
    · obtain ⟨link, left, taken, received, holds⟩ :=
        receive_mset (quiet node) (uncapped node) nothing (within node) served
      exact ⟨left, holds, fun none => absurd none nothing, fun _ => ⟨link, taken, received⟩⟩
  choose left holds unused used using visits
  refine ⟨left, ?_, holds⟩
  have exchanged := @exchange_eq _ clock groups (fun flat => [.ofString "MSET" :: flat]) schedule
    shards left (fun _ => [OK.normal]) ?_ ?_
  · have fine : (groups.entries.map fun _ => [OK.normal]).any (·.any Value.isError) = false := by
      rw [List.any_map]
      exact List.any_eq_false.mpr fun _ _ => Bool.false_ne_true
    rw [mset, show collect (fun item => nodeFor md5 ring item.1) (fun item => [item.1, item.2])
      items = some groups from collected, Option.bind_some, exchanged, Option.bind_some]
    dsimp only
    rw [fine]
    rfl
  · intro node group isGroup
    obtain ⟨nonempty, rfl⟩ :=
      (ScatterGather.mem_collect collected).mp (OrderedDict.get?_eq_some_iff.mp isGroup)
    rw [countP_of_dedup schedules, if_neg nonempty, List.flatMap_singleton]
    exact used node nonempty
  · intro node absent
    have nothing := ScatterGather.share_of_absent collected absent
    exact ⟨by rw [countP_of_dedup schedules, if_pos nothing], unused node nothing⟩

end Mset

section OneByOne

open ClusterClient

/-- On quiet links to shards without a memory limit, a pipeline does what its commands do
one at a time, `mget` what `get` of its keys does, and `mset` what `set` of its items does,
whatever order the shards take their turns in. -/
theorem scattered_as_one_by_one (md5 : Bytes → Nat) (ring : HashRing) (clock : Clock)
    {shards : Shards} (quiet : ∀ node, (shards node).Quiet)
    (uncapped : ∀ node, Uncapped (shards node).server.store) :
    (∀ commands replies after schedule,
      (∀ parts ∈ commands, Deliverable (parts.map Arg.wire)) →
      sendEach md5 ring clock commands shards = some (replies, after) →
      Schedules schedule (commands.map (commandNode md5 ring)) →
        executeMany md5 ring clock commands schedule shards = some (replies, after)) ∧
    (∀ keys answers after schedule,
      (∀ node, Deliverable
        ((.ofString "MGET" :: share (nodeFor md5 ring) node keys).map Arg.wire)) →
      getEach md5 ring clock keys shards = some (answers, after) →
      Schedules schedule (keys.map (nodeFor md5 ring)).dedup →
        ∃ left, mget md5 ring clock keys schedule shards = some (answers, left) ∧
          ∀ node, (left node).server.store = (after node).server.store) ∧
    (∀ items replies after schedule,
      (∀ node, Deliverable ((.ofString "MSET" ::
        (share (fun item => nodeFor md5 ring item.1) node items).flatMap flat).map Arg.wire)) →
      setEach md5 ring clock items shards = some (replies, after) →
      Schedules schedule (items.map fun item => nodeFor md5 ring item.1).dedup →
        ∃ left, mset md5 ring clock items schedule shards = some left ∧
          ∀ node, (left node).server.store.holdings = (after node).server.store.holdings) :=
  ⟨fun _ _ _ _ within done schedules =>
      executeMany_eq (fun node => (quiet node).inbox) within done schedules,
    fun _ _ _ _ within done schedules => mget_eq quiet within done schedules,
    fun _ _ _ _ within done schedules => mset_eq quiet uncapped within done schedules⟩

theorem Deliverable.of_sublist {parts all : List Arg} (sublist : parts.Sublist all)
    (deliverable : Deliverable (all.map Arg.wire)) : Deliverable (parts.map Arg.wire) :=
  have shorter := sublist.map Arg.wire
  ⟨shorter.length_le.trans deliverable.count,
    fun data member => deliverable.sizes data (shorter.subset member)⟩

/-- The digests of two virtual nodes and of a key for each. -/
def pairDigest (data : Bytes) : Nat :=
  if data = [115] then 0x03c7c0ace395d80182db07ae2c30f034 else HashRing.sampleDigest data

def pairRing : HashRing := .init pairDigest 1 [['a'], ['b']]

def freshShards : Shards := fun _ => ⟨emptyServer, true, [], []⟩

/-- Two keys on two shards, one of them in both spellings. -/
def mixedCommands : List (List Arg) :=
  [[.str "SET".toList, .str ['k'], .bytes [49]], [.str "INCR".toList, .bytes [115]],
    [.str "INCR".toList, .bytes [107]]]

def mixedKeys : List Arg := [.str ['k'], .bytes [115], .bytes [107]]

def mixedItems : List (Arg × Arg) := [(.str ['k'], .bytes [49]), (.bytes [115], .bytes [50])]

theorem scattered_as_one_by_one_mixed :
    (∃ replies after,
      sendEach pairDigest pairRing .epoch mixedCommands freshShards = some (replies, after) ∧
        executeMany pairDigest pairRing .epoch mixedCommands [['b'], ['a'], ['a']] freshShards =
          some (replies, after)) ∧
      (∃ answers left,
        mget pairDigest pairRing .epoch mixedKeys [['b'], ['a']] freshShards =
          some (answers, left)) ∧
      ∃ left, mset pairDigest pairRing .epoch mixedItems [['b'], ['a']] freshShards =
        some left := by
  have sent : (sendEach pairDigest pairRing .epoch mixedCommands freshShards).isSome = true := by
    decide +kernel
  have got : (getEach pairDigest pairRing .epoch mixedKeys freshShards).isSome = true := by
    decide +kernel
  have given : (setEach pairDigest pairRing .epoch mixedItems freshShards).isSome = true := by
    decide +kernel
  obtain ⟨⟨replies, after⟩, sent⟩ := Option.isSome_iff_exists.mp sent
  obtain ⟨⟨answers, visited⟩, got⟩ := Option.isSome_iff_exists.mp got
  obtain ⟨⟨dones, changed⟩, given⟩ := Option.isSome_iff_exists.mp given
  obtain ⟨pipeline, reads, writes⟩ :=
    @scattered_as_one_by_one pairDigest pairRing .epoch freshShards (fun _ => ⟨rfl, rfl⟩)
      fun _ => uncapped_init .allkeysLru
  refine ⟨⟨replies, after, sent, pipeline _ _ _ _ (by decide +kernel) sent ?_⟩, ?_, ?_⟩
  · unfold Schedules
    decide +kernel
  · have within (node : Text) : Deliverable ((.ofString "MGET" ::
        share (nodeFor pairDigest pairRing) node mixedKeys).map Arg.wire) :=
      Deliverable.of_sublist (List.filter_sublist.cons_cons _) (by decide +kernel)
    obtain ⟨left, done, -⟩ := reads _ _ _ [['b'], ['a']] within got (by
      unfold Schedules
      decide +kernel)
    exact ⟨answers, left, done⟩
  · have within (node : Text) : Deliverable ((.ofString "MSET" ::
        (share (fun item => nodeFor pairDigest pairRing item.1) node mixedItems).flatMap
          flat).map Arg.wire) :=
      Deliverable.of_sublist ((List.filter_sublist.flatMap flat).cons_cons _) (by decide +kernel)
    obtain ⟨left, done, -⟩ := writes _ _ _ [['b'], ['a']] within given (by
      unfold Schedules
      decide +kernel)
    exact ⟨left, done⟩

end OneByOne

end MiniCache
