import MiniCache.Recency
import MiniCache.StoreRefinement
import Mathlib.Algebra.Order.BigOperators.Group.List
import Mathlib.Data.List.Nodup

/-!
# The memory account and the cap

The memory counter is the cost of the entries, in every state that the operations
of a store reach, and with eviction it stays within the cap unless one entry alone
is larger.  The clock may advance between the readings of one operation.
-/

namespace MiniCache

open Recency (Fits trim victims)

/-- An operation of a store.  A call reads the clock once or twice. -/
inductive Operation
  | call (first second : Time) (call : Call)
  | drainEvictions

/-- A call that can store a value. -/
def Call.Stores : Call → Prop
  | .set _ _ _ | .incr _ _ => True
  | _ => False

namespace Store

/-- What a call leaves when the clock moves on between its two readings. -/
def callBetween (store : Store) (first second : Time) : Call → Store
  | .set key value ttl => (store.setCore first key value ttl).evict second
  | .incr key delta =>
      match incremented (((store.live first).get? key).map Prod.fst) delta with
      | .error _ => (store.fetch first key).2
      | .ok new => (store.incrCore first key new).evict second
  | .expire key ttl =>
      match store.fetch first key with
      | (none, store) => store
      | (some entry, store) =>
          { store with
            data := store.data.setItem key
              { entry with expireAt := some (second + ttl) } }.schedule key (second + ttl)
  | call => (store.call first call).2

def operate (store : Store) : Operation → Store
  | .call first second call => store.callBetween first second call
  | .drainEvictions => store.drainEvictions.2

/-- A call that reads the same time twice is a call at that time. -/
theorem callBetween_same (store : Store) (now : Time) (call : Call) :
    store.callBetween now now call = (store.call now call).2 := by
  cases call with
  | incr key delta =>
      simp only [callBetween, Store.call]
      rcases incr_cases store now key delta with ⟨_, outcome, failed⟩ | ⟨new, outcome, stored⟩
      · rw [outcome, failed]
      · rw [outcome, stored]
  | expire key ttl =>
      simp only [callBetween, Store.call, Store.expire]
      cases store.fetch now key with
      | mk entry fetched => cases entry <;> rfl
  | _ => rfl

section Weight

/-- The cost of a content under its key. -/
def weigh (content : Arg × Content) : Nat := cost content.1 content.2.1

/-- The cost of all contents. -/
def weight (dict : OrderedDict Arg Content) : Nat := (dict.entries.map weigh).sum

variable {store : Store}

theorem cells_entries (store : Store) :
    store.cells.entries = store.data.entries.map fun entry => (entry.1, entry.2.content) := by
  simp only [cells, OrderedDict.filterMap, Option.map_some]
  exact congrFun List.filterMap_eq_map' _

theorem size_cells (store : Store) : store.cells.entries.length = store.data.size := by
  rw [cells_entries, List.length_map, OrderedDict.size]

theorem weight_cells (store : Store) :
    weight store.cells =
      (store.data.entries.map fun entry => cost entry.1 entry.2.value).sum := by
  rw [weight, cells_entries, List.map_map]
  rfl

theorem Accounted.weighed (accounted : Accounted store) :
    store.usedMemory = (weight store.cells : Int) := by
  have costs : store.data.entries.map (fun entry => (entry.2.size : Int)) =
      store.data.entries.map fun entry => (cost entry.1 entry.2.value : Int) := by
    apply List.map_congr_left
    rintro ⟨key, entry⟩ member
    rw [← OrderedDict.get?_eq_some_iff] at member
    simp only [accounted.sized member]
  rw [accounted.used, costs, weight_cells]
  induction store.data.entries with
  | nil => rfl
  | cons entry rest ih =>
      rw [List.map_cons, List.map_cons, List.sum_cons, List.sum_cons, ih, Nat.cast_add]

/-- Every entry costs something, so only the empty store weighs nothing. -/
theorem weight_eq_zero_iff (store : Store) :
    weight store.cells = 0 ↔ store.data.entries = [] := by
  rw [weight_cells]
  cases store.data.entries with
  | nil => simp
  | cons entry rest =>
      simp only [List.map_cons, List.sum_cons, cost, ENTRY_OVERHEAD]
      constructor
      · intro zero
        omega
      · rintro ⟨⟩

theorem Accounted.overLimit_iff (accounted : Accounted store) (limited : 0 < store.maxmemory) :
    store.overLimit = true ↔ store.maxmemory < weight store.cells := by
  simp only [overLimit, limited, decide_true, Bool.true_and, decide_eq_true_eq,
    accounted.weighed, Int.ofNat_lt]

/-- The loop goes on exactly while the contents do not fit. -/
theorem Accounted.fits_iff (accounted : Accounted store) (limited : 0 < store.maxmemory) :
    Fits store.maxmemory weigh store.cells.entries ↔
      ¬(store.overLimit && 1 < store.data.size) = true := by
  rw [Bool.and_eq_true, accounted.overLimit_iff limited, decide_eq_true_eq, ← size_cells]
  simp only [Fits, weight]
  omega

end Weight

section Contents

variable {store middle other : Store} {now : Time}

/-- Every key of the other store is in the store with the same value. -/
def Includes (store other : Store) : Prop :=
  ∀ key content, other.plain key = some content →
    ∃ deadline, store.plain key = some (content.1, deadline)

theorem Includes.refl (store : Store) : Includes store store :=
  fun _ content held => ⟨content.2, held⟩

theorem Includes.trans (first : Includes store middle) (second : Includes middle other) :
    Includes store other := by
  intro key content held
  obtain ⟨deadline, inMiddle⟩ := second key content held
  exact first key (content.1, deadline) inMiddle

theorem Includes.of_purged
    (purged : ∀ key, ExpiringMap.Purged now (store.plain key) (other.plain key)) :
    Includes store other := by
  intro key content held
  rcases purged key with same | ⟨gone, -⟩
  · exact ⟨content.2, same.symm.trans held⟩
  · rw [gone] at held
    cases held

theorem includes_of_data (same : other.data = store.data) : Includes store other := by
  intro key content held
  rw [plain_eq, same, ← plain_eq] at held
  exact ⟨content.2, held⟩

theorem includes_remove (store : Store) (key : Arg) (expired : Bool) :
    Includes store (store.remove key expired) := by
  intro other content held
  rw [plain_remove] at held
  split_ifs at held
  exact ⟨content.2, held⟩

theorem includes_evict (store : Store) (now : Time) : Includes store (store.evict now) := by
  unfold Store.evict
  split_ifs
  · exact Includes.refl store
  · refine @evictLoop_induct (Includes store) ?_ _ _
      (Includes.of_purged (purged_sweep store now))
    intro middle key entry included _ _ _
    exact included.trans ((includes_remove middle key false).trans (includes_of_data rfl))

/-- A new deadline for a key that is present. -/
theorem includes_setItem {key : Arg} {entry : Entry} (present : store.data.get? key = some entry)
    (expireAt : Option Time)
    (data : other.data = store.data.setItem key { entry with expireAt := expireAt }) :
    Includes store other := by
  intro changed content held
  rw [plain_eq, data, OrderedDict.get?_setItem] at held
  split_ifs at held with same
  · obtain rfl := Option.some.inj held
    rw [same, plain_eq, present]
    exact ⟨entry.expireAt, rfl⟩
  · rw [← plain_eq] at held
    exact ⟨content.2, held⟩

theorem Includes.subperm (includes : Includes store other) :
    (other.cells.entries.map fun content => (content.1, content.2.1)).Subperm
      (store.cells.entries.map fun content => (content.1, content.2.1)) := by
  apply List.subperm_of_subset
  · have keys : (other.cells.entries.map Prod.fst).Nodup := other.cells.nodupKeys
    apply List.Nodup.of_map Prod.fst
    rwa [List.map_map]
  · intro pair member
    obtain ⟨⟨key, content⟩, held, rfl⟩ := List.mem_map.mp member
    obtain ⟨deadline, inStore⟩ := includes key content (OrderedDict.get?_eq_some_iff.mpr held)
    exact List.mem_map.mpr ⟨_, OrderedDict.get?_eq_some_iff.mp inStore, rfl⟩

theorem Includes.weight_le (includes : Includes store other) :
    weight other.cells ≤ weight store.cells := by
  have costs (store : Store) : store.cells.entries.map weigh =
      (store.cells.entries.map fun content => (content.1, content.2.1)).map
        fun pair => cost pair.1 pair.2 := by
    rw [List.map_map]
    rfl
  obtain ⟨listed, perm, sublist⟩ := includes.subperm
  rw [weight, weight, costs other, costs store, ← (perm.map _).sum_eq]
  exact (sublist.map _).sum_le_sum fun _ _ => Nat.zero_le _

theorem Includes.size_le (includes : Includes store other) :
    other.data.size ≤ store.data.size := by
  have lengths := includes.subperm.length_le
  rwa [List.length_map, List.length_map, size_cells, size_cells] at lengths

end Contents

section Loop

variable {store : Store}

/-- One turn of the loop drops the oldest content. -/
theorem cells_remove_first {key : Arg} {entry : Entry}
    (first : store.data.first? = some (key, entry)) :
    store.cells.entries =
      (key, entry.content) :: (store.remove key false).cells.entries := by
  rw [cells_entries, cells_entries, remove_data]
  obtain ⟨rest, entries⟩ := List.head?_eq_some_iff.mp first
  have nodup := store.data.nodupKeys
  rw [entries, List.map_cons, List.nodup_cons] at nodup
  have others : (store.data.pop key).entries = rest := by
    simp only [OrderedDict.pop, OrderedDict.filterEntries, entries]
    rw [List.filter_cons_of_neg (by simp), List.filter_eq_self]
    intro other member
    have different : other.1 ≠ key :=
      fun same => nodup.1 (List.mem_map.mpr ⟨other, member, same⟩)
    simpa using different
  rw [others, entries]
  rfl

/-- The loop drops the fewest oldest contents. -/
theorem evictLoop_spec (fuel : Nat) (accounted : Accounted store) (limited : 0 < store.maxmemory)
    (enough : store.data.size ≤ fuel) :
    (evictLoop fuel store).cells.entries = trim store.maxmemory weigh store.cells.entries ∧
      (evictLoop fuel store).evicted = store.evicted ++
        (victims store.maxmemory weigh store.cells.entries).map Prod.fst := by
  have stays {store : Store} (fits : Fits store.maxmemory weigh store.cells.entries) :
      store.cells.entries = trim store.maxmemory weigh store.cells.entries ∧
        store.evicted = store.evicted ++
          (victims store.maxmemory weigh store.cells.entries).map Prod.fst := by
    rw [Recency.trim_of_fits fits, Recency.victims_of_fits fits]
    exact ⟨rfl, (List.append_nil _).symm⟩
  induction fuel generalizing store with
  | zero =>
      have few : Fits store.maxmemory weigh store.cells.entries := by
        right
        rw [size_cells]
        omega
      exact stays few
  | succ fuel ih =>
      rw [evictLoop]
      split_ifs with goesOn
      · have unfit : ¬Fits store.maxmemory weigh store.cells.entries := by
          rw [accounted.fits_iff limited]
          exact not_not.mpr goesOn
        simp only [Bool.and_eq_true, decide_eq_true_eq] at goesOn
        cases first : store.data.first? with
        | none =>
            rw [OrderedDict.first?, List.head?_eq_none_iff] at first
            rw [OrderedDict.size, first] at goesOn
            exact absurd goesOn.2 (by decide)
        | some oldest =>
            obtain ⟨key, entry⟩ := oldest
            have entries := cells_remove_first first
            let dropped : Store :=
              { store.remove key false with
                evictedKeys := (store.remove key false).evictedKeys + 1
                evicted := (store.remove key false).evicted ++ [key] }
            have sameLimit : dropped.maxmemory = store.maxmemory := remove_maxmemory store key false
            have shorter : dropped.data.size ≤ fuel := by
              have sizes := congrArg List.length entries
              rw [List.length_cons, size_cells, size_cells] at sizes
              change (store.remove key false).data.size ≤ fuel
              omega
            obtain ⟨kept, evicted⟩ := @ih dropped
              ((accounted.remove key false).of_data rfl rfl) (sameLimit ▸ limited) shorter
            rw [entries] at unfit ⊢
            rw [Recency.trim, Recency.victims, if_neg unfit, if_neg unfit]
            rw [sameLimit] at kept evicted
            refine ⟨kept, evicted.trans ?_⟩
            simp only [dropped, remove_evicted, List.map_cons, List.append_assoc,
              List.singleton_append]
            rfl
      · exact stays ((accounted.fits_iff limited).mpr goesOn)

theorem prune_sublist (now : Time) (dict : OrderedDict Arg Content) :
    (prune now dict).entries.Sublist dict.entries := by
  simp only [prune, OrderedDict.filterMap]
  induction dict.entries with
  | nil => exact List.Sublist.slnil
  | cons entry rest ih =>
      by_cases alive : ExpiringMap.Alive now entry.2.2
      · have kept := ExpiringMap.live_some_of_alive entry.2.1 alive
        rw [List.filterMap_cons_some (by rw [kept]; rfl)]
        exact ih.cons_cons entry
      · have gone := ExpiringMap.live_some_of_not_alive entry.2.1 alive
        rw [List.filterMap_cons_none (by rw [gone]; rfl)]
        exact ih.cons entry

/-- The live contents weigh no more than all contents. -/
theorem weight_live_le (store : Store) (now : Time) :
    weight (store.live now) ≤ weight store.cells :=
  ((prune_sublist now store.cells).map weigh).sum_le_sum fun _ _ => Nat.zero_le _

/-- An eviction drops the expired contents, then the fewest oldest ones. -/
theorem evict_spec (scheduled : Scheduled store) (accounted : Accounted store)
    (limited : 0 < store.maxmemory) (evicts : store.policy = .allkeysLru) (now : Time) :
    (store.evict now).evicted = store.evicted ++
        (victims store.maxmemory weigh (store.live now).entries).map Prod.fst ∧
      Fits store.maxmemory weigh (store.evict now).cells.entries ∧
      (victims store.maxmemory weigh (store.live now).entries ≠ [] →
        (store.evict now).cells.entries =
          trim store.maxmemory weigh (store.live now).entries) := by
  unfold Store.evict
  split_ifs with stays
  · have light : weight store.cells ≤ store.maxmemory := by
      simp only [evicts, ne_eq, not_true, decide_false, Bool.false_or, Bool.not_eq_true',
        ← Bool.not_eq_true, accounted.overLimit_iff limited] at stays
      omega
    have fits : Fits store.maxmemory weigh (store.live now).entries :=
      Or.inl ((weight_live_le store now).trans light)
    rw [Recency.victims_of_fits fits]
    exact ⟨(List.append_nil _).symm, Or.inl light, fun impossible => absurd rfl impossible⟩
  · obtain ⟨sameLimit, -, -, samePending⟩ := @sweep_frame now store
    obtain ⟨kept, evicted⟩ := evictLoop_spec (store.sweepExpired now).2.data.size
      (@Accounted.sweep now store accounted) (by rwa [sameLimit]) (Nat.le_refl _)
    rw [live_eq_cells_of_sweep scheduled, sameLimit] at kept evicted
    rw [samePending] at evicted
    refine ⟨evicted, ?_, fun _ => kept⟩
    rw [kept]
    exact Recency.fits_trim _

end Loop

section Cap

variable {store other : Store} {now : Time}

/-- Every other call leaves only keys and values that were there. -/
theorem includes_call {call : Call} (reads : ¬call.Stores) :
    Includes store (store.call now call).2 := by
  have swept := Includes.of_purged (purged_sweep store now)
  cases call with
  | set key value ttl => exact absurd trivial reads
  | incr key delta => exact absurd trivial reads
  | delete key =>
      obtain ⟨expired, deleted⟩ := delete_store store now key
      simp only [Store.call, deleted]
      exact includes_remove store key expired
  | expire key ttl =>
      simp only [Store.call]
      rcases expire_cases store now key ttl with ⟨-, done⟩ | ⟨entry, present, -, done⟩ <;>
        rw [done]
      · exact includes_remove store key true
      · exact includes_setItem present _ (schedule_data _ _ _)
  | persist key =>
      simp only [Store.call]
      rcases persist_cases store now key with
        ⟨-, done⟩ | ⟨value, -, done⟩ | ⟨entry, expireAt, present, -, -, done⟩ <;> rw [done]
      · exact includes_remove store key true
      · exact Includes.refl store
      · exact includes_setItem present none rfl
  | flush =>
      intro key content held
      cases held
  | get key | existsKey key => exact Includes.of_purged (purged_get store now key)
  | ttl key =>
      simp only [Store.call, ttl_store]
      exact Includes.of_purged (purged_fetch store now key)
  | keys | snapshot | len | sweepExpired => exact swept

/-- What holds of every store that the operations reach: with eviction it stays within
its limit, unless one entry is left. -/
structure Sound (maxmemory : Nat) (policy : Policy) (store : Store) : Prop where
  scheduled : Scheduled store
  accounted : Accounted store
  limit : store.maxmemory = maxmemory
  evicts : store.policy = policy
  capped : 0 < maxmemory → policy = .allkeysLru →
    store.usedMemory ≤ maxmemory ∨ store.data.size ≤ 1

theorem sound_init (maxmemory : Nat) (policy : Policy) :
    Sound maxmemory policy (.init maxmemory policy) where
  scheduled := scheduled_init maxmemory policy
  accounted := accounted_init maxmemory policy
  limit := rfl
  evicts := rfl
  capped := fun _ _ => Or.inr (Nat.zero_le 1)

variable {maxmemory : Nat} {policy : Policy}

theorem Sound.of_includes (sound : Sound maxmemory policy store) (keeps : Keeps store other)
    (includes : Includes store other) : Sound maxmemory policy other := by
  have accounted := keeps.accounted sound.accounted
  refine ⟨keeps.scheduled sound.scheduled, accounted, keeps.maxmemory.trans sound.limit,
    keeps.policy.trans sound.evicts, ?_⟩
  intro limited evicts
  have before := sound.capped limited evicts
  have weights := includes.weight_le
  have sizes := includes.size_le
  rw [sound.accounted.weighed] at before
  rw [accounted.weighed]
  omega

/-- Whatever was stored before, an eviction restores the cap. -/
theorem Sound.evict (sound : Sound maxmemory policy store) (keeps : Keeps store other)
    (now : Time) : Sound maxmemory policy (other.evict now) := by
  have scheduled := keeps.scheduled sound.scheduled
  have accounted := keeps.accounted sound.accounted
  have limit := keeps.maxmemory.trans sound.limit
  have kept := keeps_evict other now
  refine ⟨scheduled.evict now, accounted.evict now, kept.maxmemory.trans limit,
    kept.policy.trans (keeps.policy.trans sound.evicts), ?_⟩
  rintro limited rfl
  rw [(accounted.evict now).weighed, Int.ofNat_le, ← size_cells, ← limit]
  exact (evict_spec scheduled accounted (limit ▸ limited)
    (keeps.policy.trans sound.evicts) now).2.1

/-- The live contents of a sound store with eviction fit its limit. -/
theorem Sound.fits_live (sound : Sound maxmemory policy store) (now : Time)
    (limited : 0 < maxmemory) (evicts : policy = .allkeysLru) :
    Fits maxmemory weigh (store.live now).entries := by
  rcases sound.capped limited evicts with light | single
  · left
    rw [sound.accounted.weighed] at light
    exact (weight_live_le store now).trans (by exact_mod_cast light)
  · right
    have length := (prune_sublist now store.cells).length_le
    rw [size_cells] at length
    exact length.trans single

/-- An expiry that reads the clock twice is one with another lifetime. -/
theorem callBetween_expire (store : Store) (first second : Time) (key : Arg) (ttl : Time) :
    store.callBetween first second (.expire key ttl) =
      (store.expire first key (second + ttl - first)).2 := by
  simp only [callBetween, Store.expire, add_sub_cancel]
  cases store.fetch first key with
  | mk entry fetched => cases entry <;> rfl

theorem Sound.operate (sound : Sound maxmemory policy store) (operation : Operation) :
    Sound maxmemory policy (store.operate operation) := by
  cases operation with
  | drainEvictions =>
      have drained : Keeps store store.drainEvictions.2 :=
        ⟨fun scheduled => scheduled.of_heap rfl rfl, fun accounted => accounted.of_data rfl rfl,
          rfl, rfl⟩
      exact sound.of_includes drained (includes_of_data rfl)
  | call first second call =>
      have others {call : Call} (reads : ¬call.Stores) :
          Sound maxmemory policy (store.call first call).2 :=
        sound.of_includes (keeps_call store first call) (includes_call reads)
      cases call with
      | set key value ttl => exact sound.evict (keeps_setCore store first key value ttl) second
      | incr key delta =>
          simp only [Store.operate, callBetween]
          split
          · rw [← ttl_store]
            exact @others (.ttl key) id
          · rename_i new _
            exact sound.evict (keeps_incrCore store first key new) second
      | expire key ttl =>
          simp only [Store.operate, callBetween_expire]
          exact @others (.expire key _) id
      | delete | persist | flush | get | existsKey | ttl | keys | snapshot | len
      | sweepExpired => exact others id

theorem Sound.call (sound : Sound maxmemory policy store) (now : Time) (call : Call) :
    Sound maxmemory policy (store.call now call).2 := by
  rw [← callBetween_same]
  exact sound.operate (.call now now call)

/-- In every state that the operations reach, the memory counter is the cost of the
entries, and with eviction it stays within the limit or one entry is left. -/
theorem memory_accounted (maxmemory : Nat) (policy : Policy) (operations : List Operation) :
    let store := operations.foldl Store.operate (Store.init maxmemory policy)
    store.usedMemory =
        ((store.data.entries.map fun entry =>
          ENTRY_OVERHEAD + size entry.1 + size entry.2.value).sum : Nat) ∧
      (store.usedMemory = 0 ↔ store.data.entries = []) ∧ 0 ≤ store.usedMemory ∧
      (0 < maxmemory → policy = .allkeysLru →
        store.usedMemory ≤ maxmemory ∨ store.data.size ≤ 1) := by
  intro store
  have sound : Sound maxmemory policy store := by
    refine List.foldlRecOn operations Store.operate (sound_init maxmemory policy) ?_
    intro middle sound operation _
    exact sound.operate operation
  have weighed := sound.accounted.weighed
  have empty := weight_eq_zero_iff store
  refine ⟨weighed.trans (congrArg _ (weight_cells store)), ?_, ?_, ?_⟩
  · rw [weighed, ← empty, Int.natCast_eq_zero]
  · rw [weighed]
    exact Int.natCast_nonneg _
  · exact sound.capped

end Cap

end Store

end MiniCache
