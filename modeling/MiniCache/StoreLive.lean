import MiniCache.ExpiringMap
import MiniCache.StoreInvariant

/-!
# The live view of the store

Lazy expiry and the sweep leave dead entries behind for a while.  The live view
of a store is the dictionary of its entries that have not expired, in order.
For every operation this file gives its result and the live view it leaves in
terms of the live view it finds, and shows that it keeps the invariants.
-/

namespace MiniCache

open ExpiringMap (Alive)

/-- The content of a key: a value with an optional deadline. -/
abbrev Content := Arg × Option Time

def Entry.content (entry : Entry) : Content := (entry.value, entry.expireAt)

theorem Entry.isExpired_iff {entry : Entry} {now : Time} :
    entry.isExpired now = true ↔ ¬ Alive now entry.expireAt := by
  unfold Entry.isExpired
  cases entry.expireAt <;> simp

theorem Entry.not_isExpired_iff {entry : Entry} {now : Time} :
    entry.isExpired now = false ↔ Alive now entry.expireAt := by
  rw [← Bool.not_eq_true, Entry.isExpired_iff, not_not]

/-- The contents that have not expired, in order. -/
def prune (now : Time) (dict : OrderedDict Arg Content) : OrderedDict Arg Content :=
  dict.filterMap fun _ content => ExpiringMap.live now (some content)

section Prune

variable {now later : Time} {dict other : OrderedDict Arg Content} {key : Arg}
  {content old : Content}

theorem get?_prune (now : Time) (dict : OrderedDict Arg Content) (key : Arg) :
    (prune now dict).get? key = ExpiringMap.live now (dict.get? key) := by
  rw [prune, OrderedDict.get?_filterMap]
  cases dict.get? key <;> rfl

theorem prune_entries (now : Time) (dict : OrderedDict Arg Content) :
    (prune now dict).entries = dict.entries.filter fun entry => Alive now entry.2.2 := by
  simp only [prune, OrderedDict.filterMap]
  rw [← List.filterMap_eq_filter]
  refine List.filterMap_congr fun entry _ => ?_
  by_cases alive : Alive now entry.2.2
  · rw [ExpiringMap.live_some_of_alive entry.2.1 alive]
    simp [Option.guard, alive]
  · rw [ExpiringMap.live_some_of_not_alive entry.2.1 alive]
    simp [Option.guard, alive]

theorem prune_prune (inOrder : now ≤ later) (dict : OrderedDict Arg Content) :
    prune later (prune now dict) = prune later dict := by
  unfold prune
  rw [OrderedDict.filterMap_filterMap]
  congr 1
  funext _ content
  rw [← ExpiringMap.live_live inOrder]
  cases ExpiringMap.live now (some content) <;> rfl

theorem prune_pop (now : Time) (dict : OrderedDict Arg Content) (key : Arg) :
    prune now (dict.pop key) = (prune now dict).pop key :=
  OrderedDict.filterMap_pop dict key

/-- Removing what is not live leaves no trace. -/
theorem prune_pop_of_dead (dead : ExpiringMap.live now (dict.get? key) = none) :
    prune now (dict.pop key) = prune now dict := by
  rw [prune_pop]
  apply OrderedDict.pop_of_not_mem
  rw [← OrderedDict.get?_eq_none_iff, get?_prune, dead]

theorem prune_put_of_alive (alive : Alive now content.2) :
    prune now (dict.put key content) = (prune now dict).put key content :=
  OrderedDict.filterMap_put dict key
    (ExpiringMap.live_some_of_alive content.1 alive)

theorem prune_put_of_dead (dead : ¬ Alive now content.2) :
    prune now (dict.put key content) = (prune now dict).pop key :=
  OrderedDict.filterMap_put_of_view_none dict key
    (ExpiringMap.live_some_of_not_alive content.1 dead)

/-- Storing a content looks the same over dictionaries that look the same. -/
theorem prune_put_congr (same : prune now dict = prune now other) (key : Arg)
    (content : Content) :
    prune now (dict.put key content) = prune now (other.put key content) := by
  by_cases alive : Alive now content.2
  · rw [prune_put_of_alive alive, prune_put_of_alive alive, same]
  · rw [prune_put_of_dead alive, prune_put_of_dead alive, same]

theorem prune_setItem_congr (same : prune now dict = prune now other)
    (live : ExpiringMap.live now (dict.get? key) = some old) (content : Content) :
    prune now (dict.setItem key content) = prune now (other.setItem key content) := by
  have otherLive : ExpiringMap.live now (other.get? key) = some old := by
    rw [← get?_prune, ← same, get?_prune, live]
  obtain ⟨present, oldAlive⟩ := ExpiringMap.live_eq_some_iff.mp live
  obtain ⟨otherPresent, -⟩ := ExpiringMap.live_eq_some_iff.mp otherLive
  have oldViewed := ExpiringMap.live_some_of_alive old.1 oldAlive
  unfold prune at same ⊢
  by_cases alive : Alive now content.2
  · have viewed := ExpiringMap.live_some_of_alive content.1 alive
    rw [OrderedDict.filterMap_setItem present oldViewed viewed,
      OrderedDict.filterMap_setItem otherPresent oldViewed viewed, same]
  · have hidden := ExpiringMap.live_some_of_not_alive content.1 alive
    rw [OrderedDict.filterMap_setItem_of_view_none present hidden,
      OrderedDict.filterMap_setItem_of_view_none otherPresent hidden, same]

theorem prune_moveToEnd (live : ExpiringMap.live now (dict.get? key) = some old) :
    prune now (dict.moveToEnd key) = (prune now dict).moveToEnd key := by
  obtain ⟨present, alive⟩ := ExpiringMap.live_eq_some_iff.mp live
  exact OrderedDict.filterMap_moveToEnd present
    (ExpiringMap.live_some_of_alive old.1 alive)

end Prune

namespace Store

/-- All contents of a store, expired or not. -/
def cells (store : Store) : OrderedDict Arg Content :=
  store.data.filterMap fun _ entry => some entry.content

/-- The live view. -/
def live (store : Store) (now : Time) : OrderedDict Arg Content :=
  prune now store.cells

section Cells

variable (store : Store) (now : Time) (key : Arg)

theorem get?_cells : store.cells.get? key = (store.data.get? key).map Entry.content := by
  rw [cells, OrderedDict.get?_filterMap]
  cases store.data.get? key <;> rfl

theorem get?_live :
    (store.live now).get? key =
      ExpiringMap.live now ((store.data.get? key).map Entry.content) := by
  rw [live, get?_prune, get?_cells]

theorem keys_cells : store.cells.keys = store.data.keys := by
  simp only [cells, OrderedDict.keys, OrderedDict.filterMap, Option.map_some]
  rw [List.map_filterMap]
  simp

theorem cells_remove (expired : Bool) :
    (store.remove key expired).cells = store.cells.pop key := by
  rw [cells, remove_data, OrderedDict.filterMap_pop]
  rfl

theorem cells_put (value : Arg) (expireAt : Option Time) :
    (store.put key value expireAt).cells = store.cells.put key (value, expireAt) := by
  rw [cells, put_data]
  exact OrderedDict.filterMap_put _ _ rfl

variable {store now key}

theorem cells_of_data {other : Store} (same : other.data = store.data) :
    other.cells = store.cells := by
  rw [cells, same, cells]

theorem live_of_data {other : Store} (same : other.data = store.data) :
    other.live now = store.live now := by
  rw [live, cells_of_data same, live]

theorem live_remove_of_dead (expired : Bool)
    (dead : (store.live now).get? key = none) :
    (store.remove key expired).live now = store.live now := by
  rw [live, get?_prune] at dead
  rw [live, cells_remove, prune_pop_of_dead dead, live]

theorem live_later {later : Time} (inOrder : now ≤ later) (store : Store) :
    store.live later = prune later (store.live now) :=
  (prune_prune inOrder store.cells).symm

/-- A sweep removes only what is not live. -/
theorem live_sweep : (store.sweepExpired now).2.live now = store.live now := by
  let holds (swept : Store) : Prop := swept.live now = store.live now
  have kept : holds (store.sweepExpired now).2 := by
    refine sweepLoop_induct ?_ ?_ _ _ rfl
    · intro swept record rest same _ _
      exact (live_of_data rfl).trans same
    · intro swept record rest entry same _ found deadline isDue
      let popped : Store := { swept with expiryHeap := rest }
      have dead : (popped.live now).get? (ofLex record).2 = none := by
        rw [get?_live, show popped.data = swept.data from rfl, found]
        apply ExpiringMap.live_some_of_not_alive
        rw [deadline, ExpiringMap.alive_some]
        exact not_lt_of_ge isDue
      exact ((live_remove_of_dead true dead).trans (live_of_data rfl)).trans same
  exact kept

/-- After a sweep, the live view is all there is. -/
theorem live_eq_cells_of_sweep (scheduled : Scheduled store) :
    (store.sweepExpired now).2.cells = store.live now := by
  rw [← live_sweep, live, prune]
  symm
  apply OrderedDict.filterMap_eq_self
  intro key content member
  rw [← OrderedDict.get?_eq_some_iff, get?_cells] at member
  obtain ⟨entry, present, rfl⟩ := Option.map_eq_some_iff.mp member
  have alive := Entry.not_isExpired_iff.mp (scheduled.alive_of_sweep present)
  exact ExpiringMap.live_some_of_alive entry.value alive

end Cells

/-- An operation that keeps the invariants and the configuration. -/
structure Keeps (store other : Store) : Prop where
  scheduled : Scheduled store → Scheduled other
  accounted : Accounted store → Accounted other
  maxmemory : other.maxmemory = store.maxmemory
  policy : other.policy = store.policy

section Operations

variable (store : Store) (now : Time) (key : Arg)

variable {store} in
theorem Keeps.trans {middle other : Store} (first : Keeps store middle)
    (second : Keeps middle other) : Keeps store other :=
  ⟨second.scheduled ∘ first.scheduled, second.accounted ∘ first.accounted,
    second.maxmemory.trans first.maxmemory, second.policy.trans first.policy⟩

theorem Keeps.refl : Keeps store store := ⟨id, id, rfl, rfl⟩

theorem keeps_remove (expired : Bool) : Keeps store (store.remove key expired) :=
  ⟨fun scheduled => scheduled.remove key expired,
    fun accounted => accounted.remove key expired, by simp, by simp⟩

theorem keeps_sweep : Keeps store (store.sweepExpired now).2 :=
  ⟨Scheduled.sweep, Accounted.sweep, (sweep_frame store).1, (sweep_frame store).2.1⟩

theorem keeps_evictLoop (fuel : Nat) : Keeps store (evictLoop fuel store) := by
  refine evictLoop_induct ?_ fuel (Keeps.refl store)
  intro other dropped entry kept _ _ _
  refine kept.trans ?_
  have removed := keeps_remove other dropped false
  exact ⟨fun scheduled => (removed.scheduled scheduled).of_heap rfl rfl,
    fun accounted => (removed.accounted accounted).of_data rfl rfl,
    removed.maxmemory, removed.policy⟩

theorem keeps_evict : Keeps store (store.evict now) := by
  unfold Store.evict
  split_ifs
  · exact Keeps.refl store
  · exact (keeps_sweep store now).trans (keeps_evictLoop _ _)

theorem evict_of_unlimited (unlimited : store.maxmemory = 0) :
    store.evict now = store := by
  simp [Store.evict, overLimit, unlimited]

/-- A key is found exactly when it is live, and is removed otherwise. -/
theorem fetch_cases :
    ((store.live now).get? key = none ∧
        store.fetch now key = (none, store.remove key true)) ∨
      (∃ entry, store.data.get? key = some entry ∧
        (store.live now).get? key = some entry.content ∧
        store.fetch now key = (some entry, store)) := by
  rw [get?_live]
  unfold fetch
  cases found : store.data.get? key with
  | none =>
      left
      simp [Store.remove, found]
  | some entry =>
      cases expired : entry.isExpired now with
      | true =>
          left
          exact ⟨ExpiringMap.live_some_of_not_alive _ (Entry.isExpired_iff.mp expired),
            by simp [expired]⟩
      | false =>
          right
          exact ⟨entry, rfl,
            ExpiringMap.live_some_of_alive _ (Entry.not_isExpired_iff.mp expired),
            by simp [expired]⟩

theorem keeps_fetch : Keeps store (store.fetch now key).2 := by
  rcases fetch_cases store now key with ⟨-, fetched⟩ | ⟨entry, -, -, fetched⟩ <;>
    rw [fetched]
  · exact keeps_remove store key true
  · exact Keeps.refl store

section Get

theorem get_result :
    (store.get now key).1 = ((store.live now).get? key).map Prod.fst := by
  unfold Store.get
  rcases fetch_cases store now key with ⟨dead, fetched⟩ | ⟨entry, -, live, fetched⟩
  · rw [fetched, dead]
    rfl
  · rw [fetched, live]
    rfl

/-- A lookup makes a live key the newest one. -/
theorem live_get :
    (store.get now key).2.live now = (store.live now).moveToEnd key := by
  unfold Store.get
  rcases fetch_cases store now key with ⟨dead, fetched⟩ | ⟨entry, present, live, fetched⟩
  · rw [fetched, OrderedDict.moveToEnd, dead]
    exact live_remove_of_dead true dead
  · rw [fetched]
    rw [Store.live, get?_prune] at live
    have moved : (store.data.moveToEnd key).filterMap
        (fun _ entry => some entry.content) = store.cells.moveToEnd key :=
      OrderedDict.filterMap_moveToEnd present rfl
    rw [Store.live, cells, moved, prune_moveToEnd live, Store.live]

theorem keeps_get : Keeps store (store.get now key).2 := by
  have fetched := keeps_fetch store now key
  unfold Store.get
  split
  · rename_i other same
    rw [same] at fetched
    exact fetched
  · rename_i entry other same
    rw [same] at fetched
    refine fetched.trans ⟨?_, ?_, rfl, rfl⟩
    · intro scheduled
      refine ⟨scheduled.ordered, ?_⟩
      intro moved entry expireAt present
      rw [OrderedDict.get?_moveToEnd] at present
      exact scheduled.recorded present
    · intro accounted
      constructor
      · intro moved entry present
        rw [OrderedDict.get?_moveToEnd] at present
        exact accounted.sized present
      · exact accounted.used.trans
          ((OrderedDict.moveToEnd_perm _ _).map _).sum_eq.symm

end Get

section Ttl

/-- The answer of `ttl` for a content. -/
def remaining (now : Time) : Option Content → Option Time
  | none => none
  | some (_, none) => some (-1)
  | some (_, some expireAt) => some (max 0 (expireAt - now))

theorem ttl_result :
    (store.ttl now key).1 = remaining now ((store.live now).get? key) := by
  unfold Store.ttl
  rcases fetch_cases store now key with ⟨dead, fetched⟩ | ⟨entry, -, live, fetched⟩
  · rw [fetched, dead]
    rfl
  · rw [fetched, live]
    cases deadline : entry.expireAt <;> simp [Entry.content, deadline, remaining]

theorem ttl_store : (store.ttl now key).2 = (store.fetch now key).2 := by
  unfold Store.ttl
  rcases fetch_cases store now key with ⟨-, fetched⟩ | ⟨entry, -, -, fetched⟩
  · rw [fetched]
  · rw [fetched]
    cases deadline : entry.expireAt <;> simp [deadline]

theorem live_fetch : (store.fetch now key).2.live now = store.live now := by
  rcases fetch_cases store now key with ⟨dead, fetched⟩ | ⟨entry, -, -, fetched⟩ <;>
    rw [fetched]
  exact live_remove_of_dead true dead

end Ttl

section Set

variable (value : Arg) (ttl : Option Time)

/-- `set` up to the eviction. -/
def setCore : Store :=
  let stored := { store with writes := store.writes + 1 }.put key value (ttl.map (now + ·))
  match ttl.map (now + ·) with
  | none => stored
  | some expireAt => stored.schedule key expireAt

theorem set_eq : store.set now key value ttl =
    (store.setCore now key value ttl).evict now :=
  rfl

@[simp]
theorem setCore_data : (store.setCore now key value ttl).data =
    store.data.put key ⟨value, ttl.map (now + ·), cost key value⟩ := by
  cases ttl <;> simp [setCore, put, OrderedDict.put]

@[simp]
theorem setCore_writes : (store.setCore now key value ttl).writes = store.writes + 1 := by
  cases ttl <;> simp [setCore, put]

@[simp]
theorem setCore_evicted : (store.setCore now key value ttl).evicted = store.evicted := by
  cases ttl <;> simp [setCore, put]

theorem cells_setCore : (store.setCore now key value ttl).cells =
    store.cells.put key (value, ttl.map (now + ·)) := by
  rw [cells, setCore_data]
  exact OrderedDict.filterMap_put _ _ rfl

theorem setCore_scheduled (scheduled : Scheduled store) :
    Scheduled (store.setCore now key value ttl) := by
  let stored := { store with writes := store.writes + 1 }.put key value (ttl.map (now + ·))
  have recorded {other : Arg} {entry : Entry} {deadline : Time}
      (present : stored.data.get? other = some entry)
      (deadlineEq : entry.expireAt = some deadline) :
      (other = key ∧ ttl.map (now + ·) = some deadline) ∨
        toLex (deadline, other) ∈ store.expiryHeap := by
    rw [put_get?] at present
    split_ifs at present with same
    · obtain rfl := Option.some.inj present
      exact Or.inl ⟨same, deadlineEq⟩
    · exact Or.inr (scheduled.recorded present deadlineEq)
  cases ttl with
  | none =>
      refine ⟨scheduled.ordered, ?_⟩
      intro other entry deadline present deadlineEq
      rcases recorded present deadlineEq with ⟨-, impossible⟩ | member
      · cases impossible
      · exact member
  | some ttl =>
      refine schedule_scheduled scheduled.ordered ?_
      intro other entry deadline present deadlineEq
      rcases recorded present deadlineEq with ⟨rfl, same⟩ | member
      · exact Or.inl (by rw [Option.some.inj same])
      · exact Or.inr member

theorem keeps_setCore : Keeps store (store.setCore now key value ttl) := by
  refine ⟨setCore_scheduled store now key value ttl, ?_, ?_, ?_⟩
  · intro accounted
    have stored : Accounted ({ store with writes := store.writes + 1 }.put key value
        (ttl.map (now + ·))) :=
      (accounted.of_data rfl rfl : Accounted { store with writes := store.writes + 1 }).put
        key value _
    cases ttl with
    | none => exact stored
    | some ttl => exact stored.of_data (by simp [setCore]) (by simp [setCore])
  · cases ttl <;> simp [setCore, put]
  · cases ttl <;> simp [setCore, put]

theorem keeps_set : Keeps store (store.set now key value ttl) :=
  (keeps_setCore store now key value ttl).trans (keeps_evict _ now)

theorem live_setCore : (store.setCore now key value ttl).live now =
    prune now ((store.live now).put key (value, ttl.map (now + ·))) := by
  rw [live, cells_setCore]
  exact prune_put_congr (prune_prune (le_refl now) store.cells).symm key _

end Set

section Incr

/-- The number an increment leaves, with the text of the error it raises. -/
def incremented (current : Option Arg) (delta : Int) : Except Text Int :=
  match current with
  | none =>
      if InInt64 delta then .ok delta
      else .error "increment or decrement would overflow".toList
  | some value =>
      match storedInt value with
      | .error message => .error message
      | .ok number =>
          if InInt64 (number + delta) then .ok (number + delta)
          else .error "increment or decrement would overflow".toList

/-- The value an increment stores: text in the type of the old value, or of the
key when there is none. -/
def incrementedValue (key : Arg) (current : Option Arg) (new : Int) : Arg :=
  (current.getD key).ofText (intText new)

theorem overwrite_eq_put {entry : Entry} (present : store.data.get? key = some entry)
    (value : Arg) :
    store.overwrite key value entry = store.put key value entry.expireAt := by
  unfold overwrite put
  simp only [present]
  rw [OrderedDict.setItem_moveToEnd present]
  rfl

/-- `incr` up to the eviction, when it succeeds. -/
def incrCore (new : Int) : Store :=
  let content := (store.live now).get? key
  { (store.fetch now key).2 with writes := store.writes + 1 }.put key
    (incrementedValue key (content.map Prod.fst) new) (content.bind Prod.snd)

variable (delta : Int)

/-- `incr` fails without a trace or stores the new number in place of the old
one, with the deadline that was there. -/
theorem incr_cases :
    (∃ message,
        incremented (((store.live now).get? key).map Prod.fst) delta = .error message ∧
        store.incr now key delta = (.error message, (store.fetch now key).2)) ∨
      (∃ new,
        incremented (((store.live now).get? key).map Prod.fst) delta = .ok new ∧
        store.incr now key delta = (.ok new, (store.incrCore now key new).evict now)) := by
  unfold incr incrCore
  rcases fetch_cases store now key with ⟨dead, fetched⟩ | ⟨entry, present, live, fetched⟩
  · simp only [fetched, dead, Option.map_none, incremented, Int.zero_add]
    split_ifs with inRange
    · right
      exact ⟨delta, rfl, by simp [incrementedValue]⟩
    · left
      exact ⟨_, rfl, rfl⟩
  · simp only [fetched, live, Option.map_some, incremented, Entry.content]
    cases stored : storedInt entry.value with
    | error message =>
        left
        exact ⟨message, rfl, rfl⟩
    | ok number =>
        dsimp only
        split_ifs with inRange
        · right
          refine ⟨_, rfl, ?_⟩
          have presentCounted :
              { store with writes := store.writes + 1 }.data.get? key = some entry :=
            present
          rw [overwrite_eq_put _ _ presentCounted]
          rfl
        · left
          exact ⟨_, rfl, rfl⟩

theorem fetch_frame :
    (store.fetch now key).2.expiryHeap = store.expiryHeap ∧
      (store.fetch now key).2.writes = store.writes ∧
      (store.fetch now key).2.evicted = store.evicted := by
  rcases fetch_cases store now key with ⟨-, fetched⟩ | ⟨entry, -, -, fetched⟩ <;>
    simp [fetched]

theorem keeps_incrCore (new : Int) : Keeps store (store.incrCore now key new) := by
  have fetched := keeps_fetch store now key
  refine ⟨?_, ?_, fetched.maxmemory, fetched.policy⟩
  · intro scheduled
    refine ⟨(fetched.scheduled scheduled).ordered, ?_⟩
    intro other entry deadline present deadlineEq
    rw [incrCore, put_get?] at present
    split_ifs at present with same
    · obtain rfl := Option.some.inj present
      rcases fetch_cases store now key with ⟨dead, -⟩ | ⟨old, oldPresent, live, found⟩
      · simp [dead] at deadlineEq
      · rw [live] at deadlineEq
        rw [same, show (store.incrCore now key new).expiryHeap = store.expiryHeap from
          (fetch_frame store now key).1]
        exact scheduled.recorded oldPresent deadlineEq
    · exact (fetched.scheduled scheduled).recorded present deadlineEq
  · intro accounted
    have counted : Accounted
        { (store.fetch now key).2 with writes := store.writes + 1 } :=
      (fetched.accounted accounted).of_data rfl rfl
    exact counted.put _ _ _

theorem keeps_incr : Keeps store (store.incr now key delta).2 := by
  rcases incr_cases store now key delta with ⟨_, -, failed⟩ | ⟨new, -, stored⟩
  · rw [failed]
    exact keeps_fetch store now key
  · rw [stored]
    exact (keeps_incrCore store now key new).trans (keeps_evict _ now)

theorem live_incrCore (new : Int) :
    (store.incrCore now key new).live now =
      (store.live now).put key
        (incrementedValue key (((store.live now).get? key).map Prod.fst) new,
          ((store.live now).get? key).bind Prod.snd) := by
  have alive : Alive now (((store.live now).get? key).bind Prod.snd) := by
    rw [get?_live]
    cases found : ExpiringMap.live now ((store.data.get? key).map Entry.content) with
    | none => simp
    | some content => exact (ExpiringMap.live_eq_some_iff.mp found).2
  rw [Store.live, incrCore, cells_put]
  exact (prune_put_of_alive alive).trans
    (congrArg (OrderedDict.put · key _)
      ((live_of_data rfl).trans (live_fetch store now key)))

theorem incr_result :
    (store.incr now key delta).1 =
      incremented (((store.live now).get? key).map Prod.fst) delta := by
  rcases incr_cases store now key delta with ⟨_, outcome, failed⟩ | ⟨new, outcome, stored⟩
  · rw [failed, outcome]
  · rw [stored, outcome]

end Incr

section Delete

theorem delete_result :
    (store.delete now key).1 = ((store.live now).get? key).isSome := by
  rw [get?_live]
  unfold Store.delete
  cases found : store.data.get? key with
  | none => rfl
  | some entry =>
      cases expired : entry.isExpired now with
      | true =>
          have dead := ExpiringMap.live_some_of_not_alive entry.value
            (Entry.isExpired_iff.mp expired)
          simp [Entry.content, dead, expired]
      | false =>
          have live := ExpiringMap.live_some_of_alive entry.value
            (Entry.not_isExpired_iff.mp expired)
          simp [Entry.content, live, expired]

theorem delete_store :
    ∃ expired, (store.delete now key).2 = store.remove key expired := by
  unfold Store.delete
  cases found : store.data.get? key with
  | none => exact ⟨false, by simp [Store.remove, found]⟩
  | some entry => exact ⟨_, rfl⟩

theorem live_delete :
    (store.delete now key).2.live now = (store.live now).pop key := by
  obtain ⟨expired, deleted⟩ := delete_store store now key
  rw [deleted, Store.live, cells_remove, prune_pop, Store.live]

theorem keeps_delete : Keeps store (store.delete now key).2 := by
  obtain ⟨expired, deleted⟩ := delete_store store now key
  rw [deleted]
  exact keeps_remove store key expired

end Delete

section Deadline

variable {store key} in
/-- Replacing a live entry by one with the same size, as `expire` and `persist`
do. -/
theorem Accounted.setItem {entry : Entry} (accounted : Accounted store)
    (present : store.data.get? key = some entry) (expireAt : Option Time) :
    Accounted { store with
      data := store.data.setItem key { entry with expireAt := expireAt } } := by
  constructor
  · intro other changed otherPresent
    rw [OrderedDict.get?_setItem] at otherPresent
    split_ifs at otherPresent with same
    · obtain rfl := Option.some.inj otherPresent
      rw [same]
      exact (accounted.sized present : entry.size = _)
    · exact accounted.sized otherPresent
  · have before := ((OrderedDict.perm_cons_pop present).map
      fun entry => (entry.2.size : Int)).sum_eq
    have after := ((OrderedDict.setItem_perm store.data key
      { entry with expireAt := expireAt }).map fun entry => (entry.2.size : Int)).sum_eq
    exact accounted.used.trans (before.trans after.symm)

variable {store now key} in
theorem live_setItem {entry : Entry} {changed : Store}
    (present : store.data.get? key = some entry)
    (live : (store.live now).get? key = some entry.content) (expireAt : Option Time)
    (data : changed.data =
      store.data.setItem key { entry with expireAt := expireAt }) :
    changed.live now =
      prune now ((store.live now).setItem key (entry.value, expireAt)) := by
  have changedCells : changed.cells =
      store.cells.setItem key (entry.value, expireAt) := by
    rw [cells, data]
    exact OrderedDict.filterMap_setItem present rfl rfl
  rw [Store.live, get?_prune] at live
  rw [Store.live, changedCells]
  exact prune_setItem_congr (prune_prune (le_refl now) store.cells).symm live _

variable (ttl : Time)

theorem expire_cases :
    ((store.live now).get? key = none ∧
        store.expire now key ttl = (false, store.remove key true)) ∨
      (∃ entry, store.data.get? key = some entry ∧
        (store.live now).get? key = some entry.content ∧
        store.expire now key ttl =
          (true, { store with
            data := store.data.setItem key
              { entry with expireAt := some (now + ttl) } }.schedule key (now + ttl))) := by
  unfold expire
  rcases fetch_cases store now key with ⟨dead, fetched⟩ | ⟨entry, present, live, fetched⟩
  · exact Or.inl ⟨dead, by rw [fetched]⟩
  · exact Or.inr ⟨entry, present, live, by rw [fetched]⟩

theorem expire_result :
    (store.expire now key ttl).1 = ((store.live now).get? key).isSome := by
  rcases expire_cases store now key ttl with ⟨dead, done⟩ | ⟨entry, -, live, done⟩
  · rw [done, dead]
    rfl
  · rw [done, live]
    rfl

theorem live_expire :
    (store.expire now key ttl).2.live now =
      match (store.live now).get? key with
      | none => store.live now
      | some content =>
          prune now ((store.live now).setItem key (content.1, some (now + ttl))) := by
  rcases expire_cases store now key ttl with ⟨dead, done⟩ | ⟨entry, present, live, done⟩
  · rw [done, dead]
    exact live_remove_of_dead true dead
  · rw [done, live]
    exact live_setItem present live _ (by simp)

theorem keeps_expire : Keeps store (store.expire now key ttl).2 := by
  rcases expire_cases store now key ttl with ⟨-, done⟩ | ⟨entry, present, live, done⟩
  · rw [done]
    exact keeps_remove store key true
  · rw [done]
    refine ⟨?_, ?_, by simp, by simp⟩
    · intro scheduled
      refine schedule_scheduled scheduled.ordered ?_
      intro other changed deadline otherPresent deadlineEq
      rw [OrderedDict.get?_setItem] at otherPresent
      split_ifs at otherPresent with same
      · obtain rfl := Option.some.inj otherPresent
        exact Or.inl (by rw [same, Option.some.inj deadlineEq])
      · exact Or.inr (scheduled.recorded otherPresent deadlineEq)
    · intro accounted
      exact (accounted.setItem present (some (now + ttl))).of_data (by simp) (by simp)

theorem persist_cases :
    ((store.live now).get? key = none ∧
        store.persist now key = (false, store.remove key true)) ∨
      (∃ value, (store.live now).get? key = some (value, none) ∧
        store.persist now key = (false, store)) ∨
      (∃ entry expireAt, store.data.get? key = some entry ∧
        (store.live now).get? key = some entry.content ∧
        entry.expireAt = some expireAt ∧
        store.persist now key =
          (true, { store with
            data := store.data.setItem key { entry with expireAt := none } })) := by
  unfold persist
  rcases fetch_cases store now key with ⟨dead, fetched⟩ | ⟨entry, present, live, fetched⟩
  · exact Or.inl ⟨dead, by rw [fetched]⟩
  · right
    cases deadline : entry.expireAt with
    | none =>
        left
        exact ⟨entry.value, by rw [live, Entry.content, deadline],
          by simp [fetched, deadline]⟩
    | some expireAt =>
        right
        exact ⟨entry, expireAt, present, live, deadline, by simp [fetched, deadline]⟩

/-- Whether `persist` finds a deadline to remove. -/
def hasDeadline : Option Content → Bool
  | some (_, some _) => true
  | _ => false

theorem persist_result :
    (store.persist now key).1 = hasDeadline ((store.live now).get? key) := by
  rcases persist_cases store now key with
    ⟨dead, done⟩ | ⟨value, live, done⟩ | ⟨entry, expireAt, -, live, deadline, done⟩
  · rw [done, dead]
    rfl
  · rw [done, live]
    rfl
  · rw [done, live, Entry.content, deadline]
    rfl

theorem live_persist :
    (store.persist now key).2.live now =
      match (store.live now).get? key with
      | some (value, some _) => (store.live now).setItem key (value, none)
      | _ => store.live now := by
  rcases persist_cases store now key with
    ⟨dead, done⟩ | ⟨value, live, done⟩ | ⟨entry, expireAt, present, live, deadline, done⟩
  · rw [done, dead]
    exact live_remove_of_dead true dead
  · rw [done, live]
  · rw [done, live, Entry.content, deadline]
    rw [Store.live, get?_prune] at live
    have changed : ({ store with
        data := store.data.setItem key { entry with expireAt := none } } : Store).cells =
          store.cells.setItem key (entry.value, none) := by
      rw [cells]
      exact OrderedDict.filterMap_setItem present rfl rfl
    obtain ⟨cellPresent, alive⟩ := ExpiringMap.live_eq_some_iff.mp live
    rw [Store.live, changed]
    exact OrderedDict.filterMap_setItem cellPresent
      (ExpiringMap.live_some_of_alive entry.value alive)
      (ExpiringMap.live_some_of_alive entry.value (ExpiringMap.alive_none now))

theorem keeps_persist : Keeps store (store.persist now key).2 := by
  rcases persist_cases store now key with
    ⟨-, done⟩ | ⟨value, -, done⟩ | ⟨entry, expireAt, present, -, deadline, done⟩
  · rw [done]
    exact keeps_remove store key true
  · rw [done]
    exact Keeps.refl store
  · rw [done]
    refine ⟨?_, fun accounted => accounted.setItem present _, rfl, rfl⟩
    intro scheduled
    refine ⟨scheduled.ordered, ?_⟩
    intro other changed deadline otherPresent deadlineEq
    rw [OrderedDict.get?_setItem] at otherPresent
    split_ifs at otherPresent with same
    · obtain rfl := Option.some.inj otherPresent
      cases deadlineEq
    · exact scheduled.recorded otherPresent deadlineEq

end Deadline

section Whole

theorem keeps_flush : Keeps store store.flush := by
  refine ⟨fun _ => ⟨?_, ?_⟩, fun _ => ⟨?_, rfl⟩, rfl, rfl⟩
  · exact BinaryHeap.ordered_empty
  · intro other entry deadline present
    cases present
  · intro other entry present
    cases present

theorem live_flush : store.flush.live now = OrderedDict.empty := rfl

theorem keys_result (scheduled : Scheduled store) :
    (store.keys now).1 = (store.live now).keys := by
  rw [← live_eq_cells_of_sweep scheduled, keys_cells]
  rfl

theorem len_result (scheduled : Scheduled store) :
    (store.len now).1 = (store.live now).size := by
  rw [← live_eq_cells_of_sweep scheduled, OrderedDict.size, cells, OrderedDict.filterMap]
  simp [Store.len, OrderedDict.size]

/-- The entries of a snapshot are the live contents with the time they have
left. -/
theorem snapshot_result :
    (store.snapshot now).1 = (store.live now).entries.map fun (key, content) =>
      (key, content.1, content.2.map (· - now)) := by
  rw [← live_sweep]
  simp only [Store.snapshot, Store.live, prune, cells, OrderedDict.filterMap,
    List.filterMap_filterMap, List.map_filterMap]
  apply List.filterMap_congr
  rintro ⟨key, entry⟩ _
  cases expired : entry.isExpired now with
  | true =>
      simp [Entry.content,
        ExpiringMap.live_some_of_not_alive _ (Entry.isExpired_iff.mp expired)]
  | false =>
      simp [Entry.content,
        ExpiringMap.live_some_of_alive _ (Entry.not_isExpired_iff.mp expired)]

end Whole

end Operations

end Store

end MiniCache
