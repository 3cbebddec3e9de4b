import MiniCache.AofTasks
import MiniCache.CommandForms
import MiniCache.StoreDeadlines

/-!
# Replaying a rewritten log

The log that a rewrite makes of a store lists the live contents in order of recency.
Replayed alone into a fresh store with the same limit it evicts nothing, since no part
of the listing weighs more than the whole, and it restores every content that has not
expired by then, in the same order.
-/

namespace MiniCache

open ExpiringMap (Alive)
open Recency (Fits)

section Records

/-- The records that a rewrite makes of one content. -/
def rewriteRecords (clock : Clock) (entry : Arg × Content) : List (List Arg) :=
  match entry.2.2 with
  | none => [[.ofString "SET", entry.1, entry.2.1]]
  | some deadline =>
      [[.ofString "SET", entry.1, entry.2.1],
        deadlineRecord entry.1 (wallMs (clock.toWall deadline))]

/-- What a replay makes of these records. -/
def restored (clock later : Clock) (entry : Arg × Content) : Arg × Content :=
  (entry.1, entry.2.1, entry.2.2.map fun deadline =>
    later.toMonotonic (ofMs (wallMs (clock.toWall deadline))))

variable {clock later : Clock} {store : Store}

theorem buildRewriteCommands_eq (clock : Clock) (store : Store) :
    (buildRewriteCommands clock store).1 =
      (store.live clock.monotonic).entries.flatMap (rewriteRecords clock) := by
  simp only [buildRewriteCommands]
  rw [Store.snapshot_result, List.flatMap_map]
  refine List.flatMap_congr fun entry _ => ?_
  obtain ⟨key, value, deadline⟩ := entry
  cases deadline with
  | none => rfl
  | some deadline =>
      have same : deadlineMs clock.time (deadline - clock.monotonic) =
          wallMs (clock.toWall deadline) := by
        rw [deadlineMs, wallMs, Clock.toWall]
        ring_nf
      simp only [Option.map_some, rewriteRecords, same]

/-- The text of a deadline fits a record, and `PEXPIREAT` takes it. -/
theorem sendable_deadlineRecord {key : Bytes} (keySmall : key.length ≤ MAX_BULK_LENGTH)
    {milliseconds : Int} (fits : ¬ QuotientOverflows milliseconds) :
    Sendable [sent (deadlineRecord (.bytes key) milliseconds)] ∧
      intOfText (toText (.bytes (encodeUtf8 (intText milliseconds)))) = some milliseconds := by
  have few := natAbs_of_fits fits
  constructor
  · have length := length_intText_le few (by decide)
    have digits : (encodeUtf8 (intText milliseconds)).length ≤ MAX_BULK_LENGTH := by
      rw [length_encodeUtf8_intText]
      exact length.trans (by decide)
    have name : (encodeUtf8 "PEXPIREAT".toList).length ≤ MAX_BULK_LENGTH := by decide +kernel
    intro record member
    rw [List.mem_singleton.mp member]
    refine ⟨List.cons_ne_nil _ _, ?_, ?_⟩
    · change 3 ≤ MAX_ARRAY_LENGTH
      decide
    · change ∀ data ∈ [encodeUtf8 "PEXPIREAT".toList, key, encodeUtf8 (intText milliseconds)], _
      simpa using ⟨name, keySmall, digits⟩
  · rw [toText, decodeUtf8_encodeUtf8, intOfText_intText few]

theorem ofCommand_deadlineRecord (key : Bytes) (milliseconds : Int) :
    Command.ofCommand (received (sent (deadlineRecord (.bytes key) milliseconds))) =
      some .pexpireat :=
  ofCommand_name .pexpireat _

/-- The records of a content can be read back and raise nothing. -/
theorem rewriteRecords_fine {entry : Arg × Content} (storable : Storable entry.1)
    (storableValue : Storable entry.2.1)
    (datable : ∀ deadline ∈ entry.2.2, Datable (clock.toWall deadline)) :
    Sendable ((rewriteRecords clock entry).map sent) ∧
      ∀ record ∈ (rewriteRecords clock entry).map sent, raises (received record) = false := by
  obtain ⟨key, value, deadline⟩ := entry
  obtain ⟨keyData, rfl, keySmall⟩ := storable
  obtain ⟨valueData, rfl, valueSmall⟩ := storableValue
  have stored := logTells_set keySmall valueSmall
  cases deadline with
  | none => exact ⟨stored.sendable, stored.fine⟩
  | some deadline =>
      have fits := (datable deadline rfl).not_quotientOverflows
      obtain ⟨sendable, read⟩ := sendable_deadlineRecord keySmall fits
      refine ⟨stored.sendable.append sendable, fun record member => ?_⟩
      rcases List.mem_cons.mp member with rfl | inRest
      · exact stored.fine _ (List.mem_singleton_self _)
      · rw [List.mem_singleton.mp inRest, raises_of_known (ofCommand_deadlineRecord _ _)]
        change momentEscapes [.bytes keyData, .bytes (encodeUtf8 (intText _))] = false
        simp only [momentEscapes, read, fits, decide_false]

end Records

section Restoring

namespace Store

variable {store : Store} {now : Time} {maxmemory : Nat} {policy : Policy}
  {entries : List (Arg × Content)} {key value : Arg}

theorem remove_evictedKeys (store : Store) (key : Arg) (expired : Bool) :
    (store.remove key expired).evictedKeys = store.evictedKeys := by
  unfold Store.remove
  split <;> rfl

theorem schedule_evictedKeys (store : Store) (key : Arg) (expireAt : Time) :
    (store.schedule key expireAt).evictedKeys = store.evictedKeys := by
  unfold schedule
  dsimp only
  split <;> rfl

theorem sweep_evictedKeys (store : Store) (now : Time) :
    (store.sweepExpired now).2.evictedKeys = store.evictedKeys := by
  refine @sweepLoop_induct now (fun swept => swept.evictedKeys = store.evictedKeys)
    ?_ ?_ _ _ store rfl
  · intro swept record rest frame _ _
    exact frame
  · intro swept record rest entry frame _ _ _ _
    rw [remove_evictedKeys]
    exact frame

/-- The loop leaves a store with one entry alone. -/
theorem evictLoop_of_single (fuel : Nat) (single : store.data.size ≤ 1) :
    evictLoop fuel store = store := by
  cases fuel with
  | zero => rfl
  | succ fuel =>
      have stops : (store.overLimit && 1 < store.data.size) = false := by
        rw [Bool.and_eq_false_iff]
        right
        simpa using single
      rw [evictLoop, stops]
      rfl

/-- Contents that fit the limit lose nothing to an eviction. -/
theorem evict_of_fits {before : Store} (sound : before.Sound maxmemory policy)
    (keeps : Keeps before store)
    (fits : 0 < maxmemory → policy = .allkeysLru → Fits maxmemory weigh store.cells.entries)
    (lasting : store.data.size ≤ 1 → store.live now = store.cells) :
    (store.evict now).cells = store.cells ∧ (store.evict now).evicted = store.evicted ∧
      (store.evict now).evictedKeys = store.evictedKeys := by
  unfold Store.evict
  split_ifs with stays
  · exact ⟨rfl, rfl, rfl⟩
  simp only [ne_eq, Bool.or_eq_true, decide_eq_true_eq, Bool.not_eq_true', not_or, not_not,
    Bool.not_eq_false] at stays
  obtain ⟨evicts, exceeds⟩ := stays
  have limit := keeps.maxmemory.trans sound.limit
  have limited : 0 < store.maxmemory := by
    simp only [overLimit, Bool.and_eq_true, decide_eq_true_eq] at exceeds
    exact exceeds.1
  have heavy := ((keeps.accounted sound.accounted).overLimit_iff limited).mp exceeds
  have single : store.data.size ≤ 1 := by
    rw [limit] at limited heavy
    rcases fits limited (sound.evicts.symm.trans (keeps.policy.symm.trans evicts)) with
      light | few
    · exact absurd heavy (not_lt_of_ge light)
    · rwa [size_cells] at few
  -- One entry alone may be larger than the limit; then it is swept, not evicted.
  have swept := @live_eq_cells_of_sweep store now (keeps.scheduled sound.scheduled)
  rw [lasting single] at swept
  have sweptSingle : (store.sweepExpired now).2.data.size ≤ 1 := by
    rw [← size_cells, swept, size_cells]
    exact single
  rw [evictLoop_of_single _ sweptSingle]
  exact ⟨swept, (sweep_frame store).2.2.2, sweep_evictedKeys store now⟩

/-- A sound store with just these contents, from which nothing was evicted. -/
structure Restoring (maxmemory : Nat) (policy : Policy) (entries : List (Arg × Content))
    (store : Store) : Prop where
  sound : store.Sound maxmemory policy
  contents : store.cells.entries = entries
  evicted : store.evicted = []
  evictedKeys : store.evictedKeys = 0

theorem restoring_init (maxmemory : Nat) (policy : Policy) :
    Restoring maxmemory policy [] (.init maxmemory policy) :=
  ⟨sound_init maxmemory policy, rfl, rfl, rfl⟩

theorem Restoring.absent (restoring : Restoring maxmemory policy entries store)
    (fresh : key ∉ entries.map Prod.fst) : store.data.get? key = none := by
  rw [OrderedDict.get?_eq_none_iff, ← keys_cells, OrderedDict.keys, restoring.contents]
  exact fresh

/-- A new key becomes the newest content. -/
theorem Restoring.set (restoring : Restoring maxmemory policy entries store)
    (fresh : key ∉ entries.map Prod.fst)
    (fits : 0 < maxmemory → policy = .allkeysLru →
      Fits maxmemory weigh (entries ++ [(key, value, none)])) (now : Time) :
    Restoring maxmemory policy (entries ++ [(key, value, none)])
      (store.set now key value none) := by
  have sound : (store.set now key value none).Sound maxmemory policy :=
    restoring.sound.operate (.call now now (.set key value none))
  have core : (store.setCore now key value none).cells.entries =
      entries ++ [(key, value, none)] := by
    have put : (store.setCore now key value none).cells =
        store.cells.put key (value, none) := by
      rw [← cells_put]
      exact cells_of_data (setCore_data ..)
    have notKey : key ∉ store.cells.keys := by
      rw [OrderedDict.keys, restoring.contents]
      exact fresh
    rw [put, OrderedDict.put, OrderedDict.moveToEnd_setItem_entries,
      OrderedDict.pop_of_not_mem notKey, restoring.contents]
  have keeps := keeps_setCore store now key value none
  obtain ⟨cells, evicted, count⟩ := @evict_of_fits (store.setCore now key value none) now
    maxmemory policy store restoring.sound keeps (by rwa [core]) fun single => by
      -- The only entry is the new one, which has no deadline.
      have alone : entries = [] := by
        rw [← size_cells, core, List.length_append, List.length_singleton] at single
        exact List.eq_nil_of_length_eq_zero (by omega)
      apply OrderedDict.ext
      rw [live, prune_entries, core, alone]
      simp
  exact ⟨sound, (congrArg OrderedDict.entries cells).trans core,
    evicted.trans ((setCore_evicted ..).trans restoring.evicted), count.trans restoring.evictedKeys⟩

/-- The newest content gets its deadline in place. -/
theorem Restoring.expire
    (restoring : Restoring maxmemory policy (entries ++ [(key, value, none)]) store)
    (now ttl : Time) :
    Restoring maxmemory policy (entries ++ [(key, value, some (now + ttl))])
      (store.expire now key ttl).2 := by
  have sound : (store.expire now key ttl).2.Sound maxmemory policy := by
    have operated := restoring.sound.operate (.call now now (.expire key ttl))
    rwa [Store.operate, callBetween_same] at operated
  have member : (key, (value, none)) ∈ store.cells.entries := by simp [restoring.contents]
  have found : store.cells.get? key = some (value, none) :=
    OrderedDict.get?_eq_some_iff.mpr member
  rcases expire_cases store now key ttl with ⟨dead, -⟩ | ⟨entry, present, -, done⟩
  · rw [live, get?_prune, found, ExpiringMap.live_some_none] at dead
    cases dead
  · rw [done] at sound ⊢
    refine ⟨sound, ?_, (schedule_evicted ..).trans restoring.evicted,
      (schedule_evictedKeys ..).trans restoring.evictedKeys⟩
    have content : entry.content = (value, none) := by
      rw [get?_cells, present] at found
      exact Option.some.inj found
    have distinct := store.cells.nodupKeys
    rw [restoring.contents, List.map_append, List.nodup_append] at distinct
    have others : ∀ other ∈ entries, other.1 ≠ key := fun other inEntries =>
      distinct.2.2 other.1 (List.mem_map_of_mem inEntries) key (List.mem_singleton_self key)
    obtain rfl : entry.value = value := congrArg Prod.fst content
    have cells : ({ store with
        data := store.data.setItem key
          { entry with expireAt := some (now + ttl) } }.schedule key (now + ttl)).cells =
        store.cells.setItem key (entry.value, some (now + ttl)) := by
      rw [cells_of_data (schedule_data _ _ _)]
      exact OrderedDict.filterMap_setItem present rfl rfl
    rw [cells, OrderedDict.setItem_of_mem (OrderedDict.mem_keys_of_mem member),
      restoring.contents, List.map_append, List.map_singleton, if_pos rfl]
    congr 1
    refine (List.map_congr_left fun other inEntries => ?_).trans (List.map_id _)
    rw [if_neg (others other inEntries)]
    rfl

end Store

variable {clock later : Clock} {store : Store} {maxmemory : Nat} {policy : Policy}
  {entries : List (Arg × Content)}

open Store (Restoring weigh)

/-- A `SET` of a missing key looks for it in vain. -/
theorem dispatch_set_of_absent {key value : Bytes}
    (absent : store.data.get? (.bytes key) = none) :
    (dispatch later store (received (sent [.ofString "SET", .bytes key, .bytes value]))).2 =
      store.set later.monotonic (.bytes key) (.bytes value) none := by
  have known : Command.ofCommand
      (received (sent [.ofString "SET", .bytes key, .bytes value])) = some .set :=
    ofCommand_name .set _
  have missing : (store.existsKey later.monotonic (.bytes key)) = (false, store) := by
    simp [Store.existsKey, Store.get, Store.fetch, absent]
  rw [dispatch_store_of_set known]
  change (cmdSet later store [.bytes key, .bytes value]).2 = _
  simp [cmdSet, parseSet, parseSetOptions, missing, SetOptions.blocked]

theorem dispatch_deadlineRecord {key : Bytes} {milliseconds : Int}
    (keySmall : key.length ≤ MAX_BULK_LENGTH) (fits : ¬ QuotientOverflows milliseconds) :
    (dispatch later store (received (sent (deadlineRecord (.bytes key) milliseconds)))).2 =
      (store.expire later.monotonic (.bytes key) (ofMs milliseconds - later.time)).2 := by
  obtain ⟨name, done⟩ :=
    dispatch_of_known (ofCommand_deadlineRecord key milliseconds) later store
  have read := (sendable_deadlineRecord keySmall fits).2
  rw [done, replyTo_store]
  change (cmdPexpireat later store [.bytes key, .bytes (encodeUtf8 (intText milliseconds))]).2 = _
  simp only [cmdPexpireat, read, if_neg fits]
  rfl

/-- The records of a further content restore it. -/
theorem Store.Restoring.records (restoring : Restoring maxmemory policy entries store)
    {entry : Arg × Content} (fresh : entry.1 ∉ entries.map Prod.fst)
    (fits : 0 < maxmemory → policy = .allkeysLru →
      Fits maxmemory weigh (entries ++ [(entry.1, entry.2.1, none)]))
    (storable : Storable entry.1) (storableValue : Storable entry.2.1)
    (datable : ∀ deadline ∈ entry.2.2, Datable (clock.toWall deadline)) :
    Restoring maxmemory policy (entries ++ [restored clock later entry])
      (dispatchAll later ((rewriteRecords clock entry).map sent) store) := by
  obtain ⟨key, value, deadline⟩ := entry
  obtain ⟨keyData, rfl, keySmall⟩ := storable
  obtain ⟨valueData, rfl, -⟩ := storableValue
  have stored := restoring.set fresh fits later.monotonic
  rw [← dispatch_set_of_absent (restoring.absent fresh)] at stored
  cases deadline with
  | none => exact stored
  | some deadline =>
      have overflow := (datable deadline rfl).not_quotientOverflows
      have dated := stored.expire later.monotonic
        (ofMs (wallMs (clock.toWall deadline)) - later.time)
      rw [← dispatch_deadlineRecord keySmall overflow] at dated
      have moment : later.monotonic + (ofMs (wallMs (clock.toWall deadline)) - later.time) =
          later.toMonotonic (ofMs (wallMs (clock.toWall deadline))) := by
        rw [Clock.toMonotonic]
        ring
      rw [moment] at dated
      exact dated

theorem dispatchAll_append (first second : List (List Bytes)) :
    dispatchAll later (first ++ second) store =
      dispatchAll later second (dispatchAll later first store) :=
  List.foldl_append

/-- The records of the rest restore the rest. -/
theorem Store.Restoring.all {done rest : List (Arg × Content)}
    (restoring : Restoring maxmemory policy (done.map (restored clock later)) store)
    (distinct : ((done ++ rest).map Prod.fst).Nodup)
    (fits : 0 < maxmemory → policy = .allkeysLru → Fits maxmemory weigh (done ++ rest))
    (storable : ∀ entry ∈ rest, Storable entry.1 ∧ Storable entry.2.1)
    (datable : ∀ entry ∈ rest, ∀ deadline ∈ entry.2.2, Datable (clock.toWall deadline)) :
    Restoring maxmemory policy ((done ++ rest).map (restored clock later))
      (dispatchAll later ((rest.flatMap (rewriteRecords clock)).map sent) store) := by
  induction rest generalizing done store with
  | nil =>
      rw [List.append_nil]
      exact restoring
  | cons entry rest ih =>
      have keys : (done.map (restored clock later)).map Prod.fst = done.map Prod.fst := by
        rw [List.map_map]
        rfl
      have fresh : entry.1 ∉ (done.map (restored clock later)).map Prod.fst := by
        rw [keys]
        rw [List.map_append, List.map_cons, List.nodup_append] at distinct
        intro member
        exact distinct.2.2 entry.1 member entry.1 (List.mem_cons_self ..) rfl
      have fitsHere (limited : 0 < maxmemory) (evicts : policy = .allkeysLru) :
          Fits maxmemory weigh
            (done.map (restored clock later) ++ [(entry.1, entry.2.1, none)]) := by
        -- A part of the listing weighs no more than the whole.
        have weights : ((done.map (restored clock later) ++
            [(entry.1, entry.2.1, none)]).map weigh).sum = ((done ++ [entry]).map weigh).sum := by
          rw [List.map_append, List.map_append, List.map_map]
          rfl
        rcases fits limited evicts with light | few
        · left
          rw [weights]
          simp only [List.map_append, List.sum_append, List.map_cons, List.sum_cons, List.map_nil,
            List.sum_nil] at light ⊢
          omega
        · right
          simp only [List.length_append, List.length_map, List.length_cons, List.length_nil]
            at few ⊢
          omega
      have next := @Store.Restoring.records clock later _ _ _ _ restoring entry fresh fitsHere (storable entry (by simp)).1
        (storable entry (by simp)).2 (datable entry (by simp))
      rw [List.flatMap_cons, List.map_append (f := sent), dispatchAll_append]
      rw [List.append_cons] at distinct fits ⊢
      refine ih ?_ distinct fits (fun other member => storable other (by simp [member]))
        fun other member => datable other (by simp [member])
      rw [List.map_append, List.map_singleton]
      exact next

end Restoring

section Rebuilding

variable {clock later : Clock} {store : Store} {offset : Time} {maxmemory : Nat}
  {policy : Policy}

/-- A copy of a content: the same key and value, and a deadline at most a millisecond
off on the wall clock, or none for none. -/
def CopyOf (clock later : Clock) (entry copy : Arg × Content) : Prop :=
  copy.1 = entry.1 ∧ copy.2.1 = entry.2.1 ∧
    Option.Rel (fun deadline other => |later.toWall other - clock.toWall deadline| ≤ 1 / 1000)
      entry.2.2 copy.2.2

/-- The second store was rebuilt from the first without evictions.  Its live contents
are copies of contents of the first, in the same order.  Missing are only those whose
deadline has come, and none of the others is over; a deadline within a millisecond of
the later clock counts for either. -/
structure Rebuilt (clock later : Clock) (store replayed : Store) : Prop where
  evictedKeys : replayed.evictedKeys = 0
  contents : ∃ kept : List (Arg × Content), kept.Sublist store.cells.entries ∧
    (∀ entry ∈ store.cells.entries, entry ∉ kept →
      ∃ deadline ∈ entry.2.2, clock.toWall deadline < later.time + 1 / 1000) ∧
    (∀ entry ∈ kept, ∀ deadline ∈ entry.2.2, later.time - 1 / 1000 < clock.toWall deadline) ∧
    List.Forall₂ (CopyOf clock later) kept (replayed.live later.monotonic).entries

theorem Clock.toWall_toMonotonic (clock : Clock) (moment : Time) :
    clock.toWall (clock.toMonotonic moment) = moment := by
  rw [Clock.toWall, Clock.toMonotonic]
  ring

theorem copyOf_restored (clock later : Clock) (entry : Arg × Content) :
    CopyOf clock later entry (restored clock later entry) := by
  refine ⟨rfl, rfl, ?_⟩
  rw [restored]
  cases entry.2.2 with
  | none => exact Option.Rel.none
  | some deadline =>
      refine Option.Rel.some ?_
      rw [Clock.toWall_toMonotonic, abs_sub_comm]
      exact (near_wallMs _).le

theorem alive_restored (clock later : Clock) (entry : Arg × Content) :
    Alive later.monotonic (restored clock later entry).2.2 ↔
      ∀ deadline ∈ entry.2.2, later.time < ofMs (wallMs (clock.toWall deadline)) := by
  rw [restored]
  cases entry.2.2 with
  | none => simp
  | some deadline =>
      have moment : later.monotonic < later.toMonotonic (ofMs (wallMs (clock.toWall deadline))) ↔
          later.time < ofMs (wallMs (clock.toWall deadline)) := by
        rw [← later.toMonotonic_time]
        exact later.toMonotonic_strictMono.lt_iff_lt
      simpa using moment

/-- What the records of the live contents restore is the store rebuilt. -/
theorem rebuilt_of_restoring {replayed : Store} (inOrder : clock.time ≤ later.time)
    (restoring : Store.Restoring maxmemory policy
      ((store.live clock.monotonic).entries.map (restored clock later)) replayed) :
    Rebuilt clock later store replayed := by
  let lasts (entry : Arg × Content) : Bool :=
    Alive later.monotonic (restored clock later entry).2.2
  refine ⟨restoring.evictedKeys, (store.live clock.monotonic).entries.filter lasts, ?_, ?_, ?_, ?_⟩
  · exact List.filter_sublist.trans (Store.prune_sublist clock.monotonic store.cells)
  · intro entry member missing
    by_cases listed : entry ∈ (store.live clock.monotonic).entries
    · have dead : ¬ Alive later.monotonic (restored clock later entry).2.2 := by
        intro alive
        exact missing (List.mem_filter.mpr ⟨listed, by simpa [lasts] using alive⟩)
      rw [alive_restored] at dead
      push Not at dead
      obtain ⟨deadline, given, passed⟩ := dead
      have bounds := abs_lt.mp (near_wallMs (clock.toWall deadline))
      exact ⟨deadline, given, by linarith⟩
    · -- It had expired when the listing was made.
      rw [Store.live, prune_entries, List.mem_filter] at listed
      have dead : ¬ Alive clock.monotonic entry.2.2 := by
        intro alive
        exact listed ⟨member, by simpa using alive⟩
      unfold Alive at dead
      push Not at dead
      obtain ⟨deadline, given, passed⟩ := dead
      refine ⟨deadline, given, ?_⟩
      unfold Clock.toWall
      linarith
  · intro entry member deadline given
    have alive := (List.mem_filter.mp member).2
    have ahead := (alive_restored clock later entry).mp (by simpa [lasts] using alive) deadline given
    have bounds := abs_lt.mp (near_wallMs (clock.toWall deadline))
    linarith
  · have alive : (replayed.live later.monotonic).entries =
        ((store.live clock.monotonic).entries.filter lasts).map (restored clock later) := by
      rw [Store.live, prune_entries, restoring.contents, List.filter_map]
      rfl
    rw [alive, List.forall₂_map_right_iff, List.forall₂_same]
    exact fun entry _ => copyOf_restored clock later entry

/-- Deadlines of a reachable store are datable on the wall clock. -/
theorem ReachableOn.datable (reachable : ReachableOn offset maxmemory policy store)
    (sameOffset : clock.monotonic - clock.time = offset) :
    ∀ entry ∈ (store.live clock.monotonic).entries,
      ∀ deadline ∈ entry.2.2, Datable (clock.toWall deadline) := by
  rintro ⟨key, value, expireAt⟩ member deadline given
  have inCells := (Store.prune_sublist clock.monotonic store.cells).subset member
  obtain rfl : expireAt = some deadline := given
  have dated := reachable.dated key value deadline (OrderedDict.get?_eq_some_iff.mpr inCells)
  rwa [Clock.toWall, sameOffset]

theorem ReachableOn.storable (reachable : ReachableOn offset maxmemory policy store) (now : Time) :
    ∀ entry ∈ (store.live now).entries, Storable entry.1 ∧ Storable entry.2.1 := by
  intro entry member
  have inCells := (Store.prune_sublist now store.cells).subset member
  exact reachable.storing entry.1 entry.2 (OrderedDict.get?_eq_some_iff.mpr inCells)

/-- The log that a rewrite makes of a reachable store, replayed alone at any later time
into a fresh store with the same limit and policy, rebuilds the store. -/
theorem rewrite_rebuilds (reachable : ReachableOn offset maxmemory policy store)
    (sameOffset : clock.monotonic - clock.time = offset) (inOrder : clock.time ≤ later.time)
    {file : AofFile} (content : file.content = rewritePayload clock store) :
    ∃ count replayed,
      replay later (.init maxmemory policy) file = (.ok count, replayed, file) ∧
        Rebuilt clock later store replayed := by
  let listing := (store.live clock.monotonic).entries
  have storable := reachable.storable clock.monotonic
  have datable := reachable.datable sameOffset
  let commands := (listing.flatMap (rewriteRecords clock)).map sent
  have fine : Sendable commands ∧ ∀ command ∈ commands, raises (received command) = false := by
    constructor <;> intro command member
    all_goals
      obtain ⟨record, inRecords, rfl⟩ := List.mem_map.mp member
      obtain ⟨entry, listed, here⟩ := List.mem_flatMap.mp inRecords
      have readable := rewriteRecords_fine (storable entry listed).1 (storable entry listed).2
        (datable entry listed)
    · exact readable.1 _ (List.mem_map_of_mem here)
    · exact readable.2 _ (List.mem_map_of_mem here)
  have written : file.content = logOf commands := by
    rw [content, rewritePayload, buildRewriteCommands_eq, flatMap_encodeCommand]
  have restoring := @Store.Restoring.all clock later (.init maxmemory policy) maxmemory policy
    [] listing (Store.restoring_init maxmemory policy) (store.live clock.monotonic).nodupKeys
    (reachable.sound.fits_live clock.monotonic) storable datable
  have played := @replay_logOf later (.init maxmemory policy) commands fine.1 rfl fine.2 file written
  rw [drain_of_nil restoring.evicted] at played
  exact ⟨_, _, played, rebuilt_of_restoring inOrder restoring⟩

/-- A store with one content, which expires after a millisecond. -/
def briefStore : Store := (dispatch .epoch (.init 100 .allkeysLru) (received shortSet)).2

theorem rewrite_rebuilds_briefStore :
    ∃ count replayed,
      replay (.afterEpoch 1) (.init 100 .allkeysLru) ⟨rewritePayload .epoch briefStore, none⟩ =
          (.ok count, replayed, ⟨rewritePayload .epoch briefStore, none⟩) ∧
        Rebuilt .epoch (.afterEpoch 1) briefStore replayed :=
  @rewrite_rebuilds .epoch (.afterEpoch 1) briefStore 0 100 .allkeysLru
    (.dispatch .epoch (by decide +kernel) .init (by decide +kernel)) (by decide +kernel)
    (by decide +kernel) ⟨rewritePayload .epoch briefStore, none⟩ rfl

end Rebuilding

end MiniCache
