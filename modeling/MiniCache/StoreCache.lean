import MiniCache.LruCache
import MiniCache.StoreMemory

/-!
# The store as a cache

At one instant, the live contents of a store with the keys that wait to be told as evicted
are a dictionary that evicts.  Every call changes it as the same call changes live contents
without a limit, and then evicts.
-/

namespace MiniCache

open Recency (Fits trim victims)

/-- The limit of a store that evicts. -/
def capOf (maxmemory : Nat) : Policy → Option Nat
  | .allkeysLru => if 0 < maxmemory then some maxmemory else none
  | .noeviction => none

theorem capOf_eq_some_iff {maxmemory limit : Nat} {policy : Policy} :
    capOf maxmemory policy = some limit ↔
      0 < maxmemory ∧ policy = .allkeysLru ∧ limit = maxmemory := by
  cases policy with
  | noeviction => simp [capOf]
  | allkeysLru =>
      rw [capOf]
      split_ifs with limited
      · simp [limited, eq_comm]
      · simp [limited]

/-- What a call does to live contents without a limit. -/
def Call.update (now : Time) (call : Call) (dict : OrderedDict Arg Content) :
    OrderedDict Arg Content :=
  (call.onLive now dict).2

namespace Store

variable {store other : Store} {now : Time} {maxmemory : Nat} {policy : Policy}

/-- The store as a cache. -/
def cache (store : Store) (now : Time) : LruCache Arg Content := ⟨store.live now, store.evicted⟩

/-- An eviction trims the live contents. -/
theorem live_evict (scheduled : Scheduled store) (accounted : Accounted store)
    (limited : 0 < store.maxmemory) (evicts : store.policy = .allkeysLru) :
    (store.evict now).live now = (store.live now).trim store.maxmemory weigh := by
  apply OrderedDict.ext
  unfold Store.evict
  split_ifs with stays
  · have light : weight store.cells ≤ store.maxmemory := by
      simp only [evicts, ne_eq, not_true, decide_false, Bool.false_or, Bool.not_eq_true',
        ← Bool.not_eq_true, accounted.overLimit_iff limited] at stays
      omega
    have fits : Fits store.maxmemory weigh (store.live now).entries :=
      Or.inl ((weight_live_le store now).trans light)
    rw [OrderedDict.trim_of_fits fits]
  · have sameLimit := (@sweep_frame now store).1
    obtain ⟨kept, -⟩ := evictLoop_spec (store.sweepExpired now).2.data.size
      (@Accounted.sweep now store accounted) (by rwa [sameLimit]) (Nat.le_refl _)
    rw [live_eq_cells_of_sweep scheduled, sameLimit] at kept
    rw [live, prune_entries, kept, OrderedDict.trim, List.filter_eq_self]
    intro content member
    rw [Recency.trim_eq_drop] at member
    have isLive := List.mem_of_mem_drop member
    rw [live, prune_entries, List.mem_filter] at isLive
    exact isLive.2

/-- An eviction settles the cache. -/
theorem cache_evict (keeps : Keeps store other) (sound : Sound maxmemory policy store) :
    (other.evict now).cache now = (other.cache now).settle (capOf maxmemory policy) weigh := by
  have limit := keeps.maxmemory.trans sound.limit
  have evicts := keeps.policy.trans sound.evicts
  have scheduled := keeps.scheduled sound.scheduled
  have accounted := keeps.accounted sound.accounted
  cases cap : capOf maxmemory policy with
  | none =>
      have stays : other.evict now = other := by
        by_cases limited : 0 < maxmemory
        · have noeviction : other.policy ≠ .allkeysLru := by
            intro isLru
            rw [capOf_eq_some_iff.mpr ⟨limited, evicts.symm.trans isLru, rfl⟩] at cap
            cases cap
          simp [Store.evict, noeviction]
        · exact evict_of_unlimited other now (by omega)
      rw [stays, LruCache.settle]
  | some bound =>
      obtain ⟨limited, isLru, rfl⟩ := capOf_eq_some_iff.mp cap
      have limitedOther : 0 < other.maxmemory := limit ▸ limited
      have isLruOther := evicts.trans isLru
      obtain ⟨evicted, -⟩ := evict_spec scheduled accounted limitedOther isLruOther now
      have lives := @live_evict other now scheduled accounted limitedOther isLruOther
      rw [limit] at evicted lives
      rw [cache, lives, evicted]
      rfl

/-- The cap holds of a sound store. -/
theorem Sound.settled (sound : Sound maxmemory policy store) (now : Time) :
    LruCache.Settled (capOf maxmemory policy) weigh (store.live now) := by
  intro limit isCap
  obtain ⟨limited, isLru, rfl⟩ := capOf_eq_some_iff.mp isCap
  exact sound.fits_live now limited isLru

/-- A call acts on the cache as on live contents without a limit, and evicts. -/
theorem cache_call (sound : Sound maxmemory policy store) (now : Time) (call : Call) :
    (store.call now call).2.cache now =
      (store.cache now).change (capOf maxmemory policy) weigh (call.update now) := by
  rcases store.call_cases now call with
    ⟨key, core, -, -, done, keeps, pending, live⟩ | ⟨pending, live⟩
  · rw [done, cache_evict keeps sound, LruCache.change]
    congr 1
    rw [cache, live, pending]
    rfl
  · have settled := (sound.call now call).settled now
    have same : (store.call now call).2.cache now =
        { store.cache now with dict := call.update now (store.cache now).dict } := by
      rw [cache, pending, live]
      rfl
    rw [LruCache.change, ← same, LruCache.settle_of_settled settled]

end Store

end MiniCache
