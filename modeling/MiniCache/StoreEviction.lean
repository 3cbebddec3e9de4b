import MiniCache.Recency
import MiniCache.StoreMemory
import Mathlib.Data.List.Sort

/-!
# Evictions are exactly the least recently used keys

A trace counts the touches of a run and notes the last one of every key.  The order
of the dictionary is the order of the last touches, so an eviction drops the first
keys in that order, as few as possible, and never the key that was just written.
-/

namespace MiniCache

open Recency (Fits InOrder touch trim victims)
open Store (weigh)

/-- A store with the number of touches so far and the last one of every key. -/
structure Trace where
  store : Store
  count : Nat
  touched : Arg → Nat

namespace Trace

def init (maxmemory : Nat) (policy : Policy) : Trace := ⟨.init maxmemory policy, 0, fun _ => 0⟩

/-- Note a touch, if there is one. -/
def note (trace : Trace) : Option Arg → Trace
  | none => trace
  | some key =>
      { trace with
        count := trace.count + 1
        touched := Function.update trace.touched key (trace.count + 1) }

def operate (trace : Trace) (operation : Operation) : Trace :=
  let noted := match operation with
    | .call first _ call => trace.note (call.touched trace.store first)
    | .drainEvictions => trace
  { noted with store := trace.store.operate operation }

/-- The unexpired contents that a call leaves before it evicts, least recently touched
first. -/
def remaining (trace : Trace) (now : Time) (call : Call) : List (Arg × Content) :=
  let touched := (trace.operate (.call now now call)).touched
  (call.onLive now (trace.store.live now)).2.entries.mergeSort fun older newer =>
    touched older.1 ≤ touched newer.1

/-- The dictionary stands in order of the last touches. -/
structure Ordered (trace : Trace) : Prop where
  inOrder : InOrder trace.touched trace.store.data.keys
  bounded : ∀ key, trace.touched key ≤ trace.count

end Trace

namespace Store

variable {store : Store} {key : Arg}

section Keys

theorem keys_pop (dict : OrderedDict Arg Entry) (key : Arg) :
    (dict.pop key).keys = dict.keys.filter (· ≠ key) := by
  simp only [OrderedDict.keys, OrderedDict.pop, OrderedDict.filterEntries, List.filter_map]
  rfl

theorem keys_moveToEnd {dict : OrderedDict Arg Entry} {entry : Entry}
    (present : dict.get? key = some entry) : (dict.moveToEnd key).keys = touch key dict.keys := by
  rw [OrderedDict.keys, OrderedDict.moveToEnd_entries present, List.map_append, touch, ← keys_pop]
  rfl

theorem keys_setItem {dict : OrderedDict Arg Entry} {old : Entry}
    (present : dict.get? key = some old) (entry : Entry) :
    (dict.setItem key entry).keys = dict.keys := by
  have member := OrderedDict.mem_keys_of_mem (OrderedDict.get?_eq_some_iff.mp present)
  rw [OrderedDict.keys, OrderedDict.setItem_of_mem member, List.map_map, OrderedDict.keys]
  apply List.map_congr_left
  intro other _
  by_cases same : other.1 = key <;> simp [same]

variable (store) (key : Arg) (now : Time)

theorem keys_remove_sublist (expired : Bool) :
    (store.remove key expired).data.keys.Sublist store.data.keys := by
  rw [remove_data, keys_pop]
  exact List.filter_sublist

theorem keys_fetch_sublist : (store.fetch now key).2.data.keys.Sublist store.data.keys := by
  rcases fetch_cases store now key with ⟨-, fetched⟩ | ⟨entry, -, -, fetched⟩ <;> rw [fetched]
  exact keys_remove_sublist store key true

theorem keys_sweep_sublist : (store.sweepExpired now).2.data.keys.Sublist store.data.keys := by
  let holds (swept : Store) : Prop := swept.data.keys.Sublist store.data.keys
  have kept : holds (store.sweepExpired now).2 := by
    refine sweepLoop_induct ?_ ?_ _ _ (List.Sublist.refl _)
    · intro swept record rest part _ _
      exact part
    · intro swept record rest entry part _ _ _ _
      exact (keys_remove_sublist { swept with expiryHeap := rest } _ true).trans part
  exact kept

theorem keys_evict_sublist : (store.evict now).data.keys.Sublist store.data.keys := by
  unfold Store.evict
  split_ifs
  · exact List.Sublist.refl _
  · refine @evictLoop_induct (fun dropped => dropped.data.keys.Sublist store.data.keys) ?_ _ _
      (keys_sweep_sublist store now)
    intro dropped oldest entry part _ _ _
    exact (keys_remove_sublist dropped oldest false).trans part

variable (first second : Time) (call : Call)

variable {store key} in
theorem Newest.sublist_touch {other : Store} (newest : Newest store other key) :
    other.data.keys.Sublist (touch key store.data.keys) := by
  obtain ⟨older, keys, part⟩ := newest
  have nodup := other.data.nodup_keys
  rw [keys] at nodup ⊢
  exact Recency.sublist_touch nodup part

/-- A touched key becomes the newest one, and no other key moves or appears. -/
theorem keys_callBetween_sublist :
    (store.callBetween first second call).data.keys.Sublist
      ((call.touched store first).elim store.data.keys fun key => touch key store.data.keys) := by
  have lookedUp (key : Arg) : (store.get first key).2.data.keys.Sublist
      (((store.get first key).1.map fun _ => key).elim store.data.keys
        fun key => touch key store.data.keys) := by
    unfold Store.get
    rcases fetch_cases store first key with ⟨-, fetched⟩ | ⟨entry, present, -, fetched⟩ <;>
      simp only [fetched]
    · exact keys_remove_sublist store key true
    · simp only [Option.map_some, Option.elim_some, keys_moveToEnd present]
      exact List.Sublist.refl _
  cases call with
  | set key value ttl =>
      exact (keys_evict_sublist _ second).trans
        (newest_setCore store first key value ttl).sublist_touch
  | incr key delta =>
      simp only [callBetween, Call.touched, incr_result]
      cases incremented (((store.live first).get? key).map Prod.fst) delta with
      | error message => exact keys_fetch_sublist store key first
      | ok new =>
          exact (keys_evict_sublist _ second).trans
            (newest_incrCore store first key new).sublist_touch
  | get key => exact lookedUp key
  | existsKey key => exact lookedUp key
  | delete key =>
      obtain ⟨expired, deleted⟩ := delete_store store first key
      simp only [callBetween, Store.call, deleted, Call.touched, Option.elim_none]
      exact keys_remove_sublist store key expired
  | expire key ttl =>
      simp only [callBetween_expire, Call.touched, Option.elim_none]
      rcases expire_cases store first key (second + ttl - first) with
        ⟨-, done⟩ | ⟨entry, present, -, done⟩ <;> simp only [done]
      · exact keys_remove_sublist store key true
      · rw [schedule_data, keys_setItem present]
  | persist key =>
      simp only [callBetween, Store.call, Call.touched, Option.elim_none]
      rcases persist_cases store first key with
        ⟨-, done⟩ | ⟨value, -, done⟩ | ⟨entry, expireAt, present, -, -, done⟩ <;> simp only [done]
      · exact keys_remove_sublist store key true
      · exact List.Sublist.refl _
      · rw [keys_setItem present]
  | flush => exact List.nil_sublist _
  | ttl key =>
      simp only [callBetween, Store.call, ttl_store]
      exact keys_fetch_sublist store key first
  | keys | snapshot | len | sweepExpired => exact keys_sweep_sublist store first

end Keys

end Store

namespace Trace

variable {trace : Trace}

theorem ordered_init (maxmemory : Nat) (policy : Policy) : Ordered (init maxmemory policy) :=
  ⟨List.Pairwise.nil, fun _ => Nat.le_refl 0⟩

/-- A touch keeps the order when the key that is touched becomes the newest. -/
theorem Ordered.note (ordered : Ordered trace) (touched : Option Arg) {store : Store}
    (part : store.data.keys.Sublist
      (touched.elim trace.store.data.keys fun key => touch key trace.store.data.keys)) :
    Ordered { trace.note touched with store := store } := by
  cases touched with
  | none => exact ⟨ordered.inOrder.sublist part, ordered.bounded⟩
  | some key =>
      refine ⟨(ordered.inOrder.touch ordered.bounded key).sublist part, ?_⟩
      intro other
      simp only [Trace.note, Function.update_apply]
      split_ifs
      · exact Nat.le_refl _
      · exact (ordered.bounded other).trans (Nat.le_succ _)

theorem Ordered.operate (ordered : Ordered trace) (operation : Operation) :
    Ordered (trace.operate operation) := by
  cases operation with
  | call first second call =>
      exact ordered.note _ (Store.keys_callBetween_sublist trace.store first second call)
  | drainEvictions => exact ordered.note none (List.Sublist.refl _)

/-- What holds of a trace after any run. -/
structure Run (maxmemory : Nat) (trace : Trace) : Prop where
  sound : Store.Sound maxmemory .allkeysLru trace.store
  ordered : Ordered trace

variable {maxmemory : Nat}

theorem run_foldl (maxmemory : Nat) (operations : List Operation) :
    Run maxmemory (operations.foldl operate (init maxmemory .allkeysLru)) := by
  refine List.foldlRecOn operations operate
    ⟨Store.sound_init maxmemory .allkeysLru, ordered_init maxmemory .allkeysLru⟩ ?_
  intro trace run operation _
  exact ⟨run.sound.operate operation, run.ordered.operate operation⟩

theorem operate_call_store (trace : Trace) (now : Time) (call : Call) :
    (trace.operate (.call now now call)).store = (trace.store.call now call).2 :=
  Store.callBetween_same trace.store now call

/-- Before it evicts, a call leaves the live view of a store that stands in order. -/
theorem Run.stored (run : Run maxmemory trace) (now : Time) (call : Call) :
    ∃ stored : Store, stored.live now = (call.onLive now (trace.store.live now)).2 ∧
      InOrder (trace.operate (.call now now call)).touched stored.data.keys := by
  rcases trace.store.call_cases now call with
    ⟨key, core, touched, newest, -, -, -, live⟩ | ⟨-, live⟩
  · refine ⟨core, live, ?_⟩
    have ordered := run.ordered.note (some key) newest.sublist_touch
    simp only [Trace.operate, touched]
    exact ordered.inOrder
  · refine ⟨_, live, ?_⟩
    rw [← operate_call_store]
    exact (run.ordered.operate _).inOrder

/-- The contents that a call leaves stand in order of their last touches. -/
theorem Run.remaining_eq (run : Run maxmemory trace) (now : Time) (call : Call) :
    trace.remaining now call = (call.onLive now (trace.store.live now)).2.entries ∧
      InOrder (fun content => (trace.operate (.call now now call)).touched content.1)
        (trace.remaining now call) := by
  obtain ⟨stored, live, inOrder⟩ := run.stored now call
  have keys : (stored.live now).keys.Sublist stored.data.keys := by
    rw [← Store.keys_cells]
    exact (Store.prune_sublist now stored.cells).map Prod.fst
  have liveInOrder := List.pairwise_map.mp (inOrder.sublist keys)
  rw [live] at liveInOrder
  have same : trace.remaining now call = (call.onLive now (trace.store.live now)).2.entries := by
    refine List.mergeSort_of_pairwise (liveInOrder.imp ?_)
    intro older newer before
    exact decide_eq_true before.le
  refine ⟨same, ?_⟩
  rw [same]
  exact liveInOrder

/-- A call evicts what a queue of the contents that it leaves loses. -/
theorem Run.evicted_eq (run : Run maxmemory trace) (limited : 0 < maxmemory) (now : Time)
    (call : Call) :
    let after := (trace.store.call now call).2
    let remaining := trace.remaining now call
    after.evicted = trace.store.evicted ++ (victims maxmemory weigh remaining).map Prod.fst ∧
      (victims maxmemory weigh remaining ≠ [] →
        after.cells.entries = trim maxmemory weigh remaining) := by
  intro after remaining
  have same : remaining = (call.onLive now (trace.store.live now)).2.entries :=
    (run.remaining_eq now call).1
  have sound := run.sound.operate (.call now now call)
  rw [same]
  rcases trace.store.call_cases now call with
    ⟨key, core, -, -, done, keeps, pending, live⟩ | ⟨pending, live⟩
  · have limit : core.maxmemory = maxmemory := keeps.maxmemory.trans run.sound.limit
    obtain ⟨evicted, -, kept⟩ := Store.evict_spec (keeps.scheduled run.sound.scheduled)
      (keeps.accounted run.sound.accounted) (limit ▸ limited)
      (keeps.policy.trans run.sound.evicts) now
    rw [limit, live] at evicted kept
    rw [show after = core.evict now from done, evicted, pending]
    exact ⟨rfl, kept⟩
  · have fits : Fits maxmemory weigh (after.live now).entries := by
      refine Store.Sound.fits_live ?_ now limited rfl
      rw [show after = _ from (Store.callBetween_same trace.store now call).symm]
      exact sound
    rw [← live, Recency.victims_of_fits fits]
    exact ⟨pending.trans (List.append_nil _).symm, fun impossible => absurd rfl impossible⟩

theorem newest_stays {store : Store} {now : Time} {older : List Arg} {key : Arg}
    (keys : store.data.keys = older ++ [key]) :
    key ∉ (victims maxmemory weigh (store.live now).entries).map Prod.fst := by
  rw [← Store.keys_cells, OrderedDict.keys] at keys
  obtain ⟨before, last, entries, -, lastKey⟩ := List.map_eq_append_iff.mp keys
  obtain ⟨⟨newest, content⟩, rfl, atKey⟩ := List.map_eq_singleton_iff.mp lastKey
  obtain rfl : newest = key := atKey
  have part : (store.live now).entries.Sublist (before ++ [(newest, content)]) := by
    rw [← entries]
    exact Store.prune_sublist now store.cells
  have nodup : (before ++ [(newest, content)]).Nodup := by
    rw [← entries]
    exact List.Nodup.of_map Prod.fst store.cells.nodupKeys
  intro evicted
  obtain ⟨⟨gone, found⟩, leaves, same⟩ := List.mem_map.mp evicted
  obtain rfl : gone = newest := same
  have held : (gone, found) ∈ store.cells.entries := by
    rw [entries]
    exact part.subset (Recency.mem_of_mem_victims leaves)
  have stored : (gone, content) ∈ store.cells.entries := by
    rw [entries]
    exact List.mem_append_right _ (List.mem_singleton_self _)
  rw [OrderedDict.value_unique held stored] at leaves
  exact Recency.newest_not_mem_victims nodup part leaves

/-- The key that a call touches is not one that it evicts. -/
theorem Run.touched_stays (run : Run maxmemory trace) (limited : 0 < maxmemory) {now : Time}
    {call : Call} {key : Arg} (touched : call.touched trace.store now = some key) :
    key ∉ (victims maxmemory weigh (trace.remaining now call)).map Prod.fst := by
  rw [(run.remaining_eq now call).1]
  rcases trace.store.call_cases now call with
    ⟨newest, core, stores, ⟨older, keys, -⟩, -, -, -, live⟩ | ⟨-, live⟩
  · obtain rfl := Option.some.inj (touched.symm.trans stores)
    rw [← live]
    exact newest_stays keys
  · have sound := run.sound.operate (.call now now call)
    have fits := sound.fits_live now limited rfl
    rw [show trace.store.operate (.call now now call) = _ from
      Store.callBetween_same trace.store now call, live] at fits
    rw [Recency.victims_of_fits fits]
    exact List.not_mem_nil

/-- In any run with a cap and evictions, a call evicts the first keys, in order, of the
unexpired contents sorted by their last touches.  It evicts the fewest that bring the
memory of the others within the cap or leave one of them, so none when the removal of the
expired contents is enough, and it never evicts the key that it touches. -/
theorem evicts_least_recent {maxmemory : Nat} (limited : 0 < maxmemory)
    (operations : List Operation) (now : Time) (call : Call) :
    let before := operations.foldl operate (init maxmemory .allkeysLru)
    let after := before.operate (.call now now call)
    let remaining := before.remaining now call
    InOrder (fun content => after.touched content.1) remaining ∧
      ∃ number,
        after.store.evicted =
            before.store.evicted ++ (remaining.take number).map Prod.fst ∧
          IsLeast {number | Fits maxmemory weigh (remaining.drop number)} number ∧
          (0 < number → after.store.cells.entries = remaining.drop number ∧
            after.store.usedMemory = (((remaining.drop number).map weigh).sum : Nat)) ∧
          ((remaining.map weigh).sum ≤ maxmemory → number = 0) ∧
          ∀ key ∈ call.touched before.store now, key ∉ (remaining.take number).map Prod.fst := by
  intro before after remaining
  have run : Run maxmemory before := run_foldl maxmemory operations
  have stored : after.store = (before.store.call now call).2 :=
    operate_call_store before now call
  obtain ⟨evicted, kept⟩ := run.evicted_eq limited now call
  refine ⟨(run.remaining_eq now call).2, (victims maxmemory weigh remaining).length, ?_,
    Recency.isLeast_victims remaining, ?_, ?_, ?_⟩
  · rw [← Recency.victims_eq_take, stored]
    exact evicted
  · intro some
    have entries : after.store.cells.entries =
        remaining.drop (victims maxmemory weigh remaining).length := by
      rw [← Recency.trim_eq_drop, stored]
      exact kept (List.length_pos_iff.mp some)
    have sound : Store.Sound maxmemory .allkeysLru after.store :=
      run.sound.operate (.call now now call)
    exact ⟨entries, by rw [sound.accounted.weighed, Store.weight, entries]⟩
  · intro light
    rw [Recency.victims_of_fits (Or.inl light), List.length_nil]
  · intro key touched
    rw [← Recency.victims_eq_take]
    exact run.touched_stays limited touched

/-- Two keys are stored, and the older one is looked up. -/
def lookedUp : List Operation :=
  [.call 0 0 (.set (.bytes [97]) (.bytes [49]) none),
    .call 1 1 (.set (.bytes [98]) (.bytes [49]) none), .call 2 2 (.get (.bytes [97]))]

theorem evicts_least_recent_lookedUp :
    let before := lookedUp.foldl operate (init 200 .allkeysLru)
    let call := Call.set (.bytes [99]) (.bytes [49]) none
    let after := before.operate (.call 3 3 call)
    after.store.evicted = [.bytes [98]] ∧
      ∃ number, after.store.evicted =
          before.store.evicted ++ ((before.remaining 3 call).take number).map Prod.fst ∧
        IsLeast {number | Fits 200 weigh ((before.remaining 3 call).drop number)} number := by
  intro before call after
  obtain ⟨-, number, evicted, least, -⟩ :=
    evicts_least_recent (by decide : 0 < 200) lookedUp 3 call
  exact ⟨by decide +kernel, number, evicted, least⟩

end Trace

end MiniCache
