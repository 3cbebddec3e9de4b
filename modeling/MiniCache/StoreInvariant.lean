import MiniCache.Store
import Mathlib.Algebra.BigOperators.Group.List.Basic
import Mathlib.Tactic.Linarith

/-!
# Invariants of the store

Two invariants that every operation keeps: the expiry heap is ordered and holds
a record of every pending deadline, and the memory counter is the sum of the
entry sizes.  Each is proved for the parts that the operations are made of
(removal, storing, scheduling, the sweep and the eviction loop) and then for
the operations.
-/

namespace MiniCache

namespace Store

/-- The heap is ordered and holds a record of every deadline. -/
structure Scheduled (store : Store) : Prop where
  ordered : BinaryHeap.Ordered store.expiryHeap
  recorded : ∀ {key : Arg} {entry : Entry} {expireAt : Time},
    store.data.get? key = some entry → entry.expireAt = some expireAt →
      toLex (expireAt, key) ∈ store.expiryHeap

/-- The memory counter is the sum of the entry sizes, which are the costs. -/
structure Accounted (store : Store) : Prop where
  sized : ∀ {key : Arg} {entry : Entry},
    store.data.get? key = some entry → entry.size = cost key entry.value
  used : store.usedMemory =
    (store.data.entries.map fun entry => (entry.2.size : Int)).sum

section Remove

variable (store : Store) (key : Arg) (expired : Bool)

@[simp]
theorem remove_data : (store.remove key expired).data = store.data.pop key := by
  unfold remove
  cases found : store.data.get? key with
  | none =>
      exact (OrderedDict.pop_of_not_mem
        (OrderedDict.get?_eq_none_iff.mp found)).symm
  | some entry => rfl

@[simp]
theorem remove_expiryHeap :
    (store.remove key expired).expiryHeap = store.expiryHeap := by
  unfold remove; split <;> rfl

@[simp]
theorem remove_maxmemory :
    (store.remove key expired).maxmemory = store.maxmemory := by
  unfold remove; split <;> rfl

@[simp]
theorem remove_policy : (store.remove key expired).policy = store.policy := by
  unfold remove; split <;> rfl

@[simp]
theorem remove_writes : (store.remove key expired).writes = store.writes := by
  unfold remove; split <;> rfl

@[simp]
theorem remove_evicted : (store.remove key expired).evicted = store.evicted := by
  unfold remove; split <;> rfl

variable {store}

theorem Scheduled.remove (scheduled : Scheduled store) :
    Scheduled (store.remove key expired) := by
  refine ⟨by simpa using scheduled.ordered, ?_⟩
  intro other entry expireAt present deadline
  rw [remove_data, OrderedDict.get?_pop] at present
  split_ifs at present
  rw [remove_expiryHeap]
  exact scheduled.recorded present deadline

theorem Accounted.remove (accounted : Accounted store) :
    Accounted (store.remove key expired) := by
  constructor
  · intro other entry present
    rw [remove_data, OrderedDict.get?_pop] at present
    split_ifs at present
    exact accounted.sized present
  · cases found : store.data.get? key with
    | none => simpa [Store.remove, found] using accounted.used
    | some entry =>
        have total := ((OrderedDict.perm_cons_pop found).map
          fun entry => (entry.2.size : Int)).sum_eq
        simp only [Store.remove, found]
        rw [accounted.used, total, List.map_cons, List.sum_cons]
        ring

end Remove

/-- Only the data matter to the memory account. -/
theorem Accounted.of_data {store other : Store} (accounted : Accounted store)
    (data : other.data = store.data) (used : other.usedMemory = store.usedMemory) :
    Accounted other :=
  ⟨by rw [data]; exact accounted.sized, by rw [data, used]; exact accounted.used⟩

theorem Scheduled.of_heap {store other : Store} (scheduled : Scheduled store)
    (data : other.data = store.data) (heap : other.expiryHeap = store.expiryHeap) :
    Scheduled other :=
  ⟨by rw [heap]; exact scheduled.ordered,
    by rw [data, heap]; exact scheduled.recorded⟩

section Put

variable {store : Store} (key value : Arg) (expireAt : Option Time)

theorem put_data : (store.put key value expireAt).data =
    (store.data.setItem key ⟨value, expireAt, cost key value⟩).moveToEnd key :=
  rfl

theorem put_get? (other : Arg) :
    (store.put key value expireAt).data.get? other =
      if other = key then some ⟨value, expireAt, cost key value⟩
      else store.data.get? other := by
  rw [put_data, OrderedDict.get?_moveToEnd, OrderedDict.get?_setItem]

theorem Accounted.put (accounted : Accounted store) :
    Accounted (store.put key value expireAt) := by
  constructor
  · intro other entry present
    rw [put_get?] at present
    split_ifs at present with same
    · obtain rfl := Option.some.inj present
      rw [same]
    · exact accounted.sized present
  · have total : ((store.put key value expireAt).data.entries.map
        fun entry => (entry.2.size : Int)).sum =
          cost key value +
            ((store.data.pop key).entries.map fun entry => (entry.2.size : Int)).sum := by
      rw [put_data, ((OrderedDict.moveToEnd_perm _ _).map _).sum_eq,
        ((OrderedDict.setItem_perm _ _ _).map _).sum_eq]
      simp
    rw [total]
    cases found : store.data.get? key with
    | none =>
        simp only [Store.put, found]
        rw [OrderedDict.pop_of_not_mem (OrderedDict.get?_eq_none_iff.mp found),
          accounted.used]
        ring
    | some old =>
        have before := ((OrderedDict.perm_cons_pop found).map
          fun entry => (entry.2.size : Int)).sum_eq
        simp only [Store.put, found]
        rw [accounted.used, before, List.map_cons, List.sum_cons]
        ring

end Put

section Schedule

variable (store : Store) (key : Arg) (expireAt : Time)

@[simp]
theorem schedule_data : (store.schedule key expireAt).data = store.data := by
  unfold schedule; dsimp only; split <;> rfl

@[simp]
theorem schedule_usedMemory :
    (store.schedule key expireAt).usedMemory = store.usedMemory := by
  unfold schedule; dsimp only; split <;> rfl

@[simp]
theorem schedule_maxmemory :
    (store.schedule key expireAt).maxmemory = store.maxmemory := by
  unfold schedule; dsimp only; split <;> rfl

@[simp]
theorem schedule_policy :
    (store.schedule key expireAt).policy = store.policy := by
  unfold schedule; dsimp only; split <;> rfl

@[simp]
theorem schedule_writes :
    (store.schedule key expireAt).writes = store.writes := by
  unfold schedule; dsimp only; split <;> rfl

@[simp]
theorem schedule_evicted :
    (store.schedule key expireAt).evicted = store.evicted := by
  unfold schedule; dsimp only; split <;> rfl

variable {store key expireAt}

theorem mem_expiryRecords_iff {record : Time ×ₗ Arg} :
    record ∈ store.expiryRecords ↔
      ∃ entry, store.data.get? (ofLex record).2 = some entry ∧
        entry.expireAt = some (ofLex record).1 := by
  simp only [expiryRecords, List.mem_toArray, List.mem_filterMap,
    Option.map_eq_some_iff, OrderedDict.get?_eq_some_iff]
  constructor
  · rintro ⟨⟨other, entry⟩, member, deadline, recorded, rfl⟩
    exact ⟨entry, member, recorded⟩
  · rintro ⟨entry, member, recorded⟩
    exact ⟨((ofLex record).2, entry), member, (ofLex record).1, recorded, rfl⟩

/-- Scheduling completes the records when only the scheduled one is missing. -/
theorem schedule_scheduled (ordered : BinaryHeap.Ordered store.expiryHeap)
    (recorded : ∀ {other : Arg} {entry : Entry} {deadline : Time},
      store.data.get? other = some entry → entry.expireAt = some deadline →
        toLex (deadline, other) = toLex (expireAt, key) ∨
          toLex (deadline, other) ∈ store.expiryHeap) :
    Scheduled (store.schedule key expireAt) := by
  unfold schedule
  dsimp only
  split
  · refine ⟨BinaryHeap.heapify_ordered _, ?_⟩
    intro other entry deadline present deadlineEq
    rw [(BinaryHeap.heapify_perm _).mem_iff, mem_expiryRecords_iff]
    exact ⟨entry, present, deadlineEq⟩
  · refine ⟨BinaryHeap.heappush_ordered ordered _, ?_⟩
    intro other entry deadline present deadlineEq
    rw [(BinaryHeap.heappush_perm _ _).mem_iff, Array.mem_push]
    exact (recorded present deadlineEq).symm

end Schedule

section Sweep

variable {now : Time}

/-- What one turn of the sweep can do, as an induction rule: pop a stale record
that is due, or pop the record of an expired entry and remove the entry. -/
theorem sweepLoop_induct {holds : Store → Prop}
    (stale : ∀ (store : Store) (record : Time ×ₗ Arg) (rest : Array (Time ×ₗ Arg)),
      holds store → BinaryHeap.heappop store.expiryHeap = some (record, rest) →
        (∀ entry, store.data.get? (ofLex record).2 = some entry →
          entry.expireAt ≠ some (ofLex record).1) →
        holds { store with expiryHeap := rest })
    (due : ∀ (store : Store) (record : Time ×ₗ Arg) (rest : Array (Time ×ₗ Arg))
      (entry : Entry), holds store →
        BinaryHeap.heappop store.expiryHeap = some (record, rest) →
        store.data.get? (ofLex record).2 = some entry →
        entry.expireAt = some (ofLex record).1 → (ofLex record).1 ≤ now →
        holds (({ store with expiryHeap := rest }).remove (ofLex record).2 true))
    (fuel removed : Nat) {store : Store} (start : holds store) :
    holds (sweepLoop now fuel removed store).2 := by
  induction fuel generalizing removed store with
  | zero => exact start
  | succ fuel ih =>
      unfold sweepLoop
      split
      · rename_i root record rest rootEq popped
        have sameRecord : root = record := by
          have := BinaryHeap.heappop_eq_root popped
          rw [rootEq] at this
          exact Option.some.inj this
        subst sameRecord
        split_ifs with isDue
        · dsimp only
          split
          · rename_i entry found
            split_ifs with deadline
            · exact ih _ (due store root rest entry start popped found deadline isDue)
            · refine ih _ (stale store root rest start popped ?_)
              intro other otherFound
              rw [show store.data.get? (ofLex root).2 = some entry from found]
                at otherFound
              obtain rfl := Option.some.inj otherFound
              exact deadline
          · rename_i absent
            refine ih _ (stale store root rest start popped ?_)
            intro other otherFound
            rw [show store.data.get? (ofLex root).2 = none from absent]
              at otherFound
            cases otherFound
        · exact start
      · exact start

theorem Scheduled.sweep {store : Store} (scheduled : Scheduled store) :
    Scheduled (store.sweepExpired now).2 := by
  refine sweepLoop_induct ?_ ?_ _ _ scheduled
  · intro store record rest scheduled popped isStale
    refine ⟨BinaryHeap.heappop_ordered scheduled.ordered popped, ?_⟩
    intro key entry expireAt present deadline
    have recorded := scheduled.recorded present deadline
    rw [← (BinaryHeap.heappop_perm popped).mem_iff, Array.mem_push] at recorded
    rcases recorded with inRest | isRecord
    · exact inRest
    · subst isRecord
      exact absurd deadline (isStale entry present)
  · intro store record rest entry scheduled popped found deadline isDue
    refine ⟨by simpa using BinaryHeap.heappop_ordered scheduled.ordered popped, ?_⟩
    intro key other expireAt present otherDeadline
    rw [remove_data, OrderedDict.get?_pop] at present
    split_ifs at present with different
    have recorded := scheduled.recorded present otherDeadline
    rw [← (BinaryHeap.heappop_perm popped).mem_iff, Array.mem_push] at recorded
    rw [remove_expiryHeap]
    rcases recorded with inRest | isRecord
    · exact inRest
    · subst isRecord
      exact absurd rfl different

theorem Accounted.sweep {store : Store} (accounted : Accounted store) :
    Accounted (store.sweepExpired now).2 := by
  refine sweepLoop_induct ?_ ?_ _ _ accounted
  · intro store record rest accounted _ _
    exact accounted.of_data rfl rfl
  · intro store record rest entry accounted _ _ _ _
    have popped : Accounted { store with expiryHeap := rest } :=
      accounted.of_data rfl rfl
    exact popped.remove _ _

/-- The sweep leaves the configuration, the write counter and the pending
evictions alone. -/
theorem sweep_frame (store : Store) :
    (store.sweepExpired now).2.maxmemory = store.maxmemory ∧
      (store.sweepExpired now).2.policy = store.policy ∧
      (store.sweepExpired now).2.writes = store.writes ∧
      (store.sweepExpired now).2.evicted = store.evicted := by
  let holds (swept : Store) : Prop :=
    swept.maxmemory = store.maxmemory ∧ swept.policy = store.policy ∧
      swept.writes = store.writes ∧ swept.evicted = store.evicted
  have kept : holds (store.sweepExpired now).2 := by
    refine sweepLoop_induct ?_ ?_ _ _ ⟨rfl, rfl, rfl, rfl⟩
    · intro swept record rest frame _ _
      exact frame
    · intro swept record rest entry frame _ _ _ _
      simpa [holds] using frame
  exact kept

/-- With fuel for every record, the sweep stops only at a record that is not
yet due. -/
theorem sweepLoop_root_later (fuel removed : Nat) {store : Store}
    (enough : store.expiryHeap.size ≤ fuel) {root : Time ×ₗ Arg}
    (rootEq : (sweepLoop now fuel removed store).2.expiryHeap[0]? = some root) :
    now < (ofLex root).1 := by
  induction fuel generalizing removed store with
  | zero =>
      have empty : store.expiryHeap = #[] :=
        Array.eq_empty_of_size_eq_zero (by omega)
      simp [sweepLoop, empty] at rootEq
  | succ fuel ih =>
      have shorter {record : Time ×ₗ Arg} {rest : Array (Time ×ₗ Arg)}
          (popped : BinaryHeap.heappop store.expiryHeap = some (record, rest)) :
          rest.size ≤ fuel := by
        have sizes := (BinaryHeap.heappop_perm popped).size_eq
        rw [Array.size_push] at sizes
        omega
      unfold sweepLoop at rootEq
      split at rootEq
      · rename_i first record rest firstEq popped
        split_ifs at rootEq with isDue
        · dsimp only at rootEq
          split at rootEq
          · split_ifs at rootEq
            · exact ih _ (by simpa using shorter popped) rootEq
            · exact ih _ (shorter popped) rootEq
          · exact ih _ (shorter popped) rootEq
        · rw [firstEq] at rootEq
          obtain rfl := Option.some.inj rootEq
          exact lt_of_not_ge isDue
      · rename_i impossible
        have nonempty : store.expiryHeap.size ≠ 0 := by
          intro empty
          rw [Array.eq_empty_of_size_eq_zero empty] at rootEq
          simp at rootEq
        cases popped : BinaryHeap.heappop store.expiryHeap with
        | none => exact absurd ((BinaryHeap.heappop_eq_none_iff _).mp popped) nonempty
        | some popped' => exact (impossible root _ _ rootEq popped).elim

/-- After a sweep of a store with complete records, no entry is expired. -/
theorem Scheduled.alive_of_sweep {store : Store} (scheduled : Scheduled store)
    {key : Arg} {entry : Entry}
    (present : (store.sweepExpired now).2.data.get? key = some entry) :
    entry.isExpired now = false := by
  have swept : Scheduled (store.sweepExpired now).2 := scheduled.sweep
  unfold Entry.isExpired
  cases deadline : entry.expireAt with
  | none => rfl
  | some expireAt =>
      have recorded := swept.recorded present deadline
      have nonempty : 0 < (store.sweepExpired now).2.expiryHeap.size :=
        Array.size_pos_of_mem recorded
      have rootLater := sweepLoop_root_later store.expiryHeap.size 0 (le_refl _)
        (Array.getElem?_eq_getElem nonempty)
      have rootLe := swept.ordered.root_le_of_mem nonempty recorded
      have timeLe := (Prod.Lex.toLex_le_toLex'.mp rootLe).1
      simp only [decide_eq_false_iff_not, not_le]
      exact rootLater.trans_le timeLe

end Sweep

section Evict

/-- What one turn of the eviction loop does, as an induction rule. -/
theorem evictLoop_induct {holds : Store → Prop}
    (drop : ∀ (store : Store) (key : Arg) (entry : Entry), holds store →
      store.overLimit = true → 1 < store.data.size →
        store.data.first? = some (key, entry) →
        holds { store.remove key false with
          evictedKeys := (store.remove key false).evictedKeys + 1
          evicted := (store.remove key false).evicted ++ [key] })
    (fuel : Nat) {store : Store} (start : holds store) :
    holds (evictLoop fuel store) := by
  induction fuel generalizing store with
  | zero => exact start
  | succ fuel ih =>
      unfold evictLoop
      split_ifs with goesOn
      · simp only [Bool.and_eq_true, decide_eq_true_eq] at goesOn
        split
        · exact start
        · rename_i key entry first
          exact ih (drop store key entry start goesOn.1 goesOn.2 first)
      · exact start

theorem Scheduled.evictLoop {store : Store} (scheduled : Scheduled store)
    (fuel : Nat) : Scheduled (evictLoop fuel store) := by
  refine evictLoop_induct ?_ fuel scheduled
  intro store key entry scheduled _ _ _
  exact (scheduled.remove key false).of_heap rfl rfl

theorem Accounted.evictLoop {store : Store} (accounted : Accounted store)
    (fuel : Nat) : Accounted (evictLoop fuel store) := by
  refine evictLoop_induct ?_ fuel accounted
  intro store key entry accounted _ _ _
  exact (accounted.remove key false).of_data rfl rfl

theorem Scheduled.evict {store : Store} (scheduled : Scheduled store)
    (now : Time) : Scheduled (store.evict now) := by
  unfold Store.evict
  split_ifs
  · exact scheduled
  · exact scheduled.sweep.evictLoop _

theorem Accounted.evict {store : Store} (accounted : Accounted store)
    (now : Time) : Accounted (store.evict now) := by
  unfold Store.evict
  split_ifs
  · exact accounted
  · exact accounted.sweep.evictLoop _

end Evict

end Store

end MiniCache
