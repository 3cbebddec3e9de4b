import MiniCache.StoreMemory

/-!
# The number of expiry records

Nearly every operation leaves stale records in the expiry heap, and only a sweep or
the rebuild in `_schedule` takes them out.  The rebuild looks at the entries there are
at that moment, so the bound on the heap is in the most entries the store has held.
-/

namespace MiniCache

/-- A store with the most entries it has held since its creation or the last flush. -/
structure Watched where
  store : Store
  peak : Nat

namespace Store

/-- The states that a store passes through in an operation: what `set` and `incr` store
comes before what they evict. -/
def stages (store : Store) : Operation → List Store
  | .call first second (.set key value ttl) =>
      [store.setCore first key value ttl,
        store.operate (.call first second (.set key value ttl))]
  | .call first second (.incr key delta) =>
      match incremented (((store.live first).get? key).map Prod.fst) delta with
      | .error _ => [store.operate (.call first second (.incr key delta))]
      | .ok new =>
          [store.incrCore first key new,
            store.operate (.call first second (.incr key delta))]
  | operation => [store.operate operation]

end Store

namespace Watched

def init (maxmemory : Nat) (policy : Policy) : Watched := ⟨.init maxmemory policy, 0⟩

/-- The peak counts again from a flush. -/
def operate (watched : Watched) (operation : Operation) : Watched where
  store := watched.store.operate operation
  peak :=
    let counted := match operation with
      | .call _ _ .flush => 0
      | _ => watched.peak
    (watched.store.stages operation).foldl (fun peak stage => max peak stage.data.size) counted

end Watched

namespace Store

section Shrinking

/-- A step that adds neither entries nor records. -/
structure Shrinks (store other : Store) : Prop where
  entries : other.data.size ≤ store.data.size
  records : other.expiryHeap.size ≤ store.expiryHeap.size

variable {store middle other : Store}

theorem Shrinks.refl (store : Store) : Shrinks store store := ⟨le_refl _, le_refl _⟩

theorem Shrinks.trans (first : Shrinks store middle) (second : Shrinks middle other) :
    Shrinks store other :=
  ⟨second.entries.trans first.entries, second.records.trans first.records⟩

theorem Includes.shrinks (includes : Includes store other)
    (records : other.expiryHeap.size ≤ store.expiryHeap.size) : Shrinks store other :=
  ⟨includes.size_le, records⟩

theorem shrinks_remove (store : Store) (key : Arg) (expired : Bool) :
    Shrinks store (store.remove key expired) :=
  (includes_remove store key expired).shrinks (le_of_eq (by rw [remove_expiryHeap]))

theorem shrinks_sweep (store : Store) (now : Time) :
    Shrinks store (store.sweepExpired now).2 := by
  have popped (middle : Store) {record : Time ×ₗ Arg} {rest : Array (Time ×ₗ Arg)}
      (heap : BinaryHeap.heappop middle.expiryHeap = some (record, rest)) :
      Shrinks middle { middle with expiryHeap := rest } := by
    have sizes := (BinaryHeap.heappop_perm heap).size_eq
    rw [Array.size_push] at sizes
    exact ⟨le_refl _, by change rest.size ≤ _; omega⟩
  refine @sweepLoop_induct now (Shrinks store) ?_ ?_ _ _ store (Shrinks.refl store)
  · intro middle record rest shrinks heap _
    exact shrinks.trans (popped middle heap)
  · intro middle record rest entry shrinks heap _ _ _
    exact (shrinks.trans (popped middle heap)).trans (shrinks_remove _ _ true)

theorem shrinks_evict (store : Store) (now : Time) : Shrinks store (store.evict now) := by
  unfold Store.evict
  split_ifs
  · exact Shrinks.refl store
  · refine @evictLoop_induct (Shrinks store) ?_ _ _ (shrinks_sweep store now)
    intro middle key entry shrinks _ _ _
    have removed := shrinks_remove middle key false
    exact shrinks.trans ⟨removed.entries, removed.records⟩

theorem shrinks_fetch (store : Store) (now : Time) (key : Arg) :
    Shrinks store (store.fetch now key).2 := by
  rcases fetch_cases store now key with ⟨-, fetched⟩ | ⟨entry, -, -, fetched⟩ <;> rw [fetched]
  · exact shrinks_remove store key true
  · exact Shrinks.refl store

/-- A call that neither stores a value nor sets a deadline. -/
theorem shrinks_call (store : Store) (now : Time) {call : Call} (reads : ¬call.Stores)
    (undated : ∀ key ttl, call ≠ .expire key ttl) :
    Shrinks store (store.call now call).2 := by
  refine (includes_call reads).shrinks ?_
  cases call with
  | set | incr => exact absurd trivial reads
  | expire key ttl => exact absurd rfl (undated key ttl)
  | flush => exact Nat.zero_le _
  | delete key =>
      obtain ⟨expired, deleted⟩ := delete_store store now key
      simp only [Store.call, deleted]
      exact (shrinks_remove store key expired).records
  | persist key =>
      simp only [Store.call]
      rcases persist_cases store now key with
        ⟨-, done⟩ | ⟨value, -, done⟩ | ⟨entry, expireAt, -, -, -, done⟩ <;> rw [done]
      exact (shrinks_remove store key true).records
  | get key | existsKey key =>
      have fetched := (shrinks_fetch store now key).records
      simp only [Store.call, existsKey, get]
      cases found : store.fetch now key with
      | mk entry left =>
          rw [found] at fetched
          cases entry <;> exact fetched
  | ttl key =>
      simp only [Store.call, ttl_store]
      exact (shrinks_fetch store now key).records
  | keys | snapshot | len | sweepExpired => exact (shrinks_sweep store now).records

end Shrinking

section Scheduling

variable (store : Store) (key : Arg) (expireAt : Time)

theorem expiryRecords_size_le : store.expiryRecords.size ≤ store.data.size := by
  rw [expiryRecords, List.size_toArray]
  exact List.length_filterMap_le _ _

/-- After a push the heap is within the bound for the entries there are. -/
theorem schedule_size_le :
    (store.schedule key expireAt).expiryHeap.size ≤
      4 * (store.schedule key expireAt).data.size + 1024 := by
  rw [schedule_data]
  unfold schedule
  dsimp only
  split_ifs with crowded
  · have rebuilt := (BinaryHeap.heapify_perm store.expiryRecords).size_eq
    have records := store.expiryRecords_size_le
    change (BinaryHeap.heapify store.expiryRecords).size ≤ _
    omega
  · exact Nat.le_of_not_lt crowded

/-- A rebuilt heap has a record of every deadline. -/
theorem mem_rebuilt {store : Store} {key other : Arg} {entry : Entry} {expireAt deadline : Time}
    (crowded : 4 * store.data.size + 1024 <
      (BinaryHeap.heappush store.expiryHeap (toLex (expireAt, key))).size)
    (present : store.data.get? other = some entry) (dated : entry.expireAt = some deadline) :
    toLex (deadline, other) ∈ (store.schedule key expireAt).expiryHeap := by
  simp only [schedule, if_pos crowded]
  rw [(BinaryHeap.heapify_perm _).mem_iff, mem_expiryRecords_iff]
  exact ⟨entry, present, dated⟩

end Scheduling

section Bound

/-- A store is within a number of entries and the bound on the records for it. -/
structure Within (peak : Nat) (store : Store) : Prop where
  entries : store.data.size ≤ peak
  records : store.expiryHeap.size ≤ 4 * peak + 1024

variable {store other : Store} {peak : Nat}

theorem bound_mono {few many : Nat} (le : few ≤ many) : 4 * few + 1024 ≤ 4 * many + 1024 := by
  omega

theorem Within.shrinks (within : Within peak store) (shrinks : Shrinks store other) :
    Within peak other :=
  ⟨shrinks.entries.trans within.entries, shrinks.records.trans within.records⟩

/-- Up to the eviction, a `set` grows the peak with the entries. -/
theorem Within.setCore (within : Within peak store) (now : Time) (key value : Arg)
    (ttl : Option Time) :
    Within (max peak (store.setCore now key value ttl).data.size)
      (store.setCore now key value ttl) := by
  refine ⟨le_max_right _ _, ?_⟩
  cases ttl with
  | none =>
      have same : (store.setCore now key value none).expiryHeap = store.expiryHeap := rfl
      rw [same]
      exact within.records.trans (bound_mono (le_max_left _ _))
  | some ttl =>
      have scheduled : (store.setCore now key value (some ttl)).expiryHeap.size ≤
          4 * (store.setCore now key value (some ttl)).data.size + 1024 :=
        schedule_size_le _ key (now + ttl)
      exact scheduled.trans (bound_mono (le_max_right _ _))

theorem Within.incrCore (within : Within peak store) (now : Time) (key : Arg) (new : Int) :
    Within (max peak (store.incrCore now key new).data.size) (store.incrCore now key new) := by
  refine ⟨le_max_right _ _, ?_⟩
  have records : (store.incrCore now key new).expiryHeap = store.expiryHeap :=
    (fetch_frame store now key).1
  rw [records]
  exact within.records.trans (bound_mono (le_max_left _ _))

theorem Within.expire (within : Within peak store) (now : Time) (key : Arg) (ttl : Time) :
    Within peak (store.expire now key ttl).2 := by
  have entries : (store.expire now key ttl).2.data.size ≤ peak :=
    (@includes_call store now (.expire key ttl) id).size_le.trans within.entries
  rcases expire_cases store now key ttl with ⟨-, done⟩ | ⟨entry, -, -, done⟩
  · rw [done]
    exact within.shrinks (shrinks_remove store key true)
  · rw [done] at entries ⊢
    exact ⟨entries, (schedule_size_le _ key (now + ttl)).trans (bound_mono entries)⟩

theorem Within.mono {larger : Nat} (within : Within peak store) (le : peak ≤ larger) :
    Within larger store :=
  ⟨within.entries.trans le, within.records.trans (bound_mono le)⟩

end Bound

end Store

namespace Watched

open Store (Within Shrinks)

theorem within_operate {watched : Watched} (within : Within watched.peak watched.store)
    (operation : Operation) :
    Within (watched.operate operation).peak (watched.operate operation).store := by
  have last {peak : Nat} {left : Store} (within : Within peak left) :
      Within (max peak left.data.size) left := within.mono (le_max_left _ _)
  cases operation with
  | drainEvictions =>
      have drained : Shrinks watched.store watched.store.drainEvictions.2 :=
        ⟨le_refl _, le_refl _⟩
      exact last (within.shrinks drained)
  | call first second call =>
      have others {call : Call} (reads : ¬call.Stores)
          (undated : ∀ key ttl, call ≠ .expire key ttl) :
          Within (max watched.peak (watched.store.call first call).2.data.size)
            (watched.store.call first call).2 :=
        last (within.shrinks (Store.shrinks_call watched.store first reads undated))
      cases call with
      | set key value ttl =>
          exact last ((within.setCore first key value ttl).shrinks
            (Store.shrinks_evict _ second))
      | incr key delta =>
          simp only [operate, Store.stages, Store.operate, Store.callBetween]
          cases Store.incremented
              (((watched.store.live first).get? key).map Prod.fst) delta with
          | error message =>
              exact last (within.shrinks (Store.shrinks_fetch watched.store first key))
          | ok new =>
              exact last ((within.incrCore first key new).shrinks
                (Store.shrinks_evict _ second))
      | expire key ttl =>
          simp only [operate, Store.stages, Store.operate, Store.callBetween_expire]
          exact last (within.expire first key _)
      | flush => exact ⟨le_refl _, Nat.zero_le _⟩
      | delete | persist | get | existsKey | ttl | keys | snapshot | len | sweepExpired =>
          exact others id (by simp)

theorem store_foldl (operations : List Operation) (watched : Watched) :
    (operations.foldl operate watched).store =
      operations.foldl Store.operate watched.store := by
  induction operations generalizing watched with
  | nil => rfl
  | cons operation rest ih => exact ih (watched.operate operation)

/-- In every state that the operations reach, the expiry heap is ordered, has a record of
every deadline and stays within the bound for the most entries held; a rebuild keeps the
record of every deadline in any store. -/
theorem expiryHeap_bounded (maxmemory : Nat) (policy : Policy) (operations : List Operation) :
    let watched := operations.foldl operate (init maxmemory policy)
    let store := operations.foldl Store.operate (.init maxmemory policy)
    (watched.store = store ∧ store.data.size ≤ watched.peak) ∧
      BinaryHeap.Ordered store.expiryHeap ∧
      store.expiryHeap.size ≤ 4 * watched.peak + 1024 ∧
      (∀ key entry deadline, store.data.get? key = some entry →
        entry.expireAt = some deadline → toLex (deadline, key) ∈ store.expiryHeap) ∧
      ∀ (store : Store) key expireAt,
        4 * store.data.size + 1024 <
            (BinaryHeap.heappush store.expiryHeap (toLex (expireAt, key))).size →
          ∀ other entry deadline, store.data.get? other = some entry →
            entry.expireAt = some deadline →
              toLex (deadline, other) ∈ (store.schedule key expireAt).expiryHeap := by
  intro watched store
  have same : watched.store = store := store_foldl operations (init maxmemory policy)
  have within : Within watched.peak watched.store := by
    refine List.foldlRecOn (motive := fun watched : Watched => Within watched.peak watched.store)
      operations operate ⟨le_refl _, Nat.zero_le _⟩ ?_
    intro middle within operation _
    exact within_operate within operation
  have sound : Store.Sound maxmemory policy store := by
    refine List.foldlRecOn operations Store.operate (Store.sound_init maxmemory policy) ?_
    intro middle sound operation _
    exact sound.operate operation
  rw [same] at within
  refine ⟨⟨same, within.entries⟩, sound.scheduled.ordered, within.records, ?_, ?_⟩
  · intro key entry deadline present dated
    exact sound.scheduled.recorded present dated
  · intro store key expireAt crowded other entry deadline present dated
    exact Store.mem_rebuilt crowded present dated

end Watched

end MiniCache
