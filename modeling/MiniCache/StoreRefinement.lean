import MiniCache.StoreLive
import Mathlib.Data.List.Chain
import Mathlib.Data.Set.Card

/-!
# The store refines a plain map

The calls of the public interface, the plain map from keys to values with
optional deadlines that they are meant to act on, and the refinement.  Between
the two stands an ordered dictionary of live contents: the store answers every
call as that dictionary does, whatever dead entries it still holds, and the
dictionary answers as the plain map does.
-/

namespace MiniCache

open ExpiringMap (Cell Effect Action Purged)

/-- A call of the interface of the store. -/
inductive Call
  | set (key value : Arg) (ttl : Option Time)
  | incr (key : Arg) (delta : Int)
  | delete (key : Arg)
  | expire (key : Arg) (ttl : Time)
  | persist (key : Arg)
  | flush
  | get (key : Arg)
  | existsKey (key : Arg)
  | ttl (key : Arg)
  | keys
  | snapshot
  | len
  | sweepExpired
deriving DecidableEq

/-- What a call returns; an increment may also raise. -/
inductive Result
  | done
  | number (outcome : Except Text Int)
  | flag (answer : Bool)
  | value (found : Option Arg)
  | remaining (ttl : Option Time)
  | keys (listed : List Arg)
  | entries (listed : List (Arg × Arg × Option Time))
  | count (number : Nat)
deriving DecidableEq

def Call.Visible (call : Call) : Prop := call ≠ .sweepExpired

instance : DecidablePred Call.Visible := fun call =>
  inferInstanceAs (Decidable (call ≠ .sweepExpired))

def Store.call (store : Store) (now : Time) : Call → Result × Store
  | .set key value ttl => (.done, store.set now key value ttl)
  | .incr key delta =>
      (.number (store.incr now key delta).1, (store.incr now key delta).2)
  | .delete key => (.flag (store.delete now key).1, (store.delete now key).2)
  | .expire key ttl =>
      (.flag (store.expire now key ttl).1, (store.expire now key ttl).2)
  | .persist key => (.flag (store.persist now key).1, (store.persist now key).2)
  | .flush => (.done, store.flush)
  | .get key => (.value (store.get now key).1, (store.get now key).2)
  | .existsKey key =>
      (.flag (store.existsKey now key).1, (store.existsKey now key).2)
  | .ttl key => (.remaining (store.ttl now key).1, (store.ttl now key).2)
  | .keys => (.keys (store.keys now).1, (store.keys now).2)
  | .snapshot => (.entries (store.snapshot now).1, (store.snapshot now).2)
  | .len => (.count (store.len now).1, (store.len now).2)
  | .sweepExpired =>
      (.count (store.sweepExpired now).1, (store.sweepExpired now).2)

/-- The results of the visible calls of a run. -/
def Store.answers (store : Store) : List (Time × Call) → List Result
  | [] => []
  | (now, call) :: rest =>
      if call.Visible then
        (store.call now call).1 :: (store.call now call).2.answers rest
      else
        (store.call now call).2.answers rest

/-- The clock never goes back during a run. -/
def Nondecreasing {α : Type*} (run : List (Time × α)) : Prop :=
  (run.map Prod.fst).Pairwise (· ≤ ·)

instance {α : Type*} (run : List (Time × α)) : Decidable (Nondecreasing run) :=
  inferInstanceAs (Decidable ((run.map Prod.fst).Pairwise (· ≤ ·)))

section PlainMap

/-- Every key holds at most one value, with an optional deadline. -/
abbrev PlainMap := Arg → Cell Arg Time

/-- What an increment makes of the value of a key. -/
def incrementUpdate (key : Arg) (delta : Int) (current : Option Arg) : Option Arg :=
  match Store.incremented current delta with
  | .error _ => none
  | .ok new => some (Store.incrementedValue key current new)

/-- The effect of a call on the plain map. -/
def Call.effect (now : Time) : Call → Option (Effect Arg Arg Time)
  | .set key value lifetime => some (.act key (.write value (lifetime.map (now + ·))))
  | .incr key delta => some (.act key (.modify (incrementUpdate key delta)))
  | .delete key => some (.act key .clear)
  | .expire key lifetime => some (.act key (.setDeadline (now + lifetime)))
  | .persist key => some (.act key .persist)
  | .flush => some .flush
  | .get _ | .existsKey _ | .ttl _ | .keys | .snapshot | .len | .sweepExpired => none

def Call.apply (now : Time) (call : Call) (plain : PlainMap) : PlainMap :=
  match call.effect now with
  | none => plain
  | some effect => effect.apply now plain

/-- What the plain map returns: a content whose deadline has come is absent. -/
def Call.Answers (now : Time) (plain : PlainMap) (result : Result) : Call → Prop
  | .set _ _ _ | .flush => result = .done
  | .incr key delta =>
      result = .number
        (Store.incremented ((ExpiringMap.live now (plain key)).map Prod.fst) delta)
  | .delete key | .expire key _ | .existsKey key =>
      result = .flag (ExpiringMap.live now (plain key)).isSome
  | .persist key =>
      result = .flag (Store.hasDeadline (ExpiringMap.live now (plain key)))
  | .get key => result = .value ((ExpiringMap.live now (plain key)).map Prod.fst)
  | .ttl key =>
      result = .remaining (Store.remaining now (ExpiringMap.live now (plain key)))
  | .keys => ∃ listed, result = .keys listed ∧ listed.Nodup ∧
      ∀ key, key ∈ listed ↔ (ExpiringMap.live now (plain key)).isSome
  | .snapshot => ∃ listed, result = .entries listed ∧ (listed.map Prod.fst).Nodup ∧
      ∀ key value ttl, (key, value, ttl) ∈ listed ↔
        ∃ deadline, ExpiringMap.live now (plain key) = some (value, deadline) ∧
          ttl = deadline.map (· - now)
  | .len => result =
      .count (Set.ncard {key | (ExpiringMap.live now (plain key)).isSome = true})
  | .sweepExpired => True

/-- The results are those of the plain map, call by call. -/
def AnswersAll (plain : PlainMap) : List (Time × Call) → List Result → Prop
  | [], results => results = []
  | (now, call) :: rest, results =>
      if call.Visible then
        ∃ result later, results = result :: later ∧ call.Answers now plain result ∧
          AnswersAll (call.apply now plain) rest later
      else
        AnswersAll (call.apply now plain) rest results

end PlainMap

section Ideal

/-- What a call returns and leaves on a dictionary of live contents. -/
def Call.onLive (now : Time) (dict : OrderedDict Arg Content) :
    Call → Result × OrderedDict Arg Content
  | .set key value lifetime =>
      (.done, prune now (dict.put key (value, lifetime.map (now + ·))))
  | .incr key delta =>
      let current := (dict.get? key).map Prod.fst
      (.number (Store.incremented current delta),
        match Store.incremented current delta with
        | .error _ => dict
        | .ok new => dict.put key
            (Store.incrementedValue key current new, (dict.get? key).bind Prod.snd))
  | .delete key => (.flag (dict.get? key).isSome, dict.pop key)
  | .expire key lifetime =>
      (.flag (dict.get? key).isSome,
        match dict.get? key with
        | none => dict
        | some content =>
            prune now (dict.setItem key (content.1, some (now + lifetime))))
  | .persist key =>
      (.flag (Store.hasDeadline (dict.get? key)),
        match dict.get? key with
        | some (value, some _) => dict.setItem key (value, none)
        | _ => dict)
  | .flush => (.done, .empty)
  | .get key => (.value ((dict.get? key).map Prod.fst), dict.moveToEnd key)
  | .existsKey key => (.flag (dict.get? key).isSome, dict.moveToEnd key)
  | .ttl key => (.remaining (Store.remaining now (dict.get? key)), dict)
  | .keys => (.keys dict.keys, dict)
  | .snapshot =>
      (.entries (dict.entries.map fun (key, content) =>
        (key, content.1, content.2.map (· - now))), dict)
  | .len => (.count dict.size, dict)
  | .sweepExpired => (.count 0, dict)

/-- The key that a call touches: one that it stores or that it looks up and finds. -/
def Call.touched (store : Store) (now : Time) : Call → Option Arg
  | .set key _ _ => some key
  | .incr key delta => (store.incr now key delta).1.toOption.map fun _ => key
  | .get key | .existsKey key => (store.get now key).1.map fun _ => key
  | .delete _ | .expire _ _ | .persist _ | .flush | .ttl _ | .keys | .snapshot | .len
  | .sweepExpired => none

namespace Store

variable (store : Store) (now : Time)

theorem keeps_call (call : Call) : Keeps store (store.call now call).2 := by
  cases call with
  | set key value ttl => exact keeps_set store now key value ttl
  | incr key delta => exact keeps_incr store now key delta
  | delete key => exact keeps_delete store now key
  | expire key ttl => exact keeps_expire store now key ttl
  | persist key => exact keeps_persist store now key
  | flush => exact keeps_flush store
  | get key => exact keeps_get store now key
  | existsKey key => exact keeps_get store now key
  | ttl key =>
      simp only [Store.call, ttl_store]
      exact keeps_fetch store now key
  | keys => exact keeps_sweep store now
  | snapshot => exact keeps_sweep store now
  | len => exact keeps_sweep store now
  | sweepExpired => exact keeps_sweep store now

/-- The key is the newest one, and the others were there before. -/
def Newest (store other : Store) (key : Arg) : Prop :=
  ∃ older, other.data.keys = older ++ [key] ∧ older.Sublist store.data.keys

variable {store} in
theorem newest_of_put {other : Store} {dict : OrderedDict Arg Entry} {key : Arg} {entry : Entry}
    (part : dict.keys.Sublist store.data.keys) (stored : other.data = dict.put key entry) :
    Newest store other key := by
  refine ⟨(dict.pop key).keys, ?_, (List.filter_sublist.map Prod.fst).trans part⟩
  rw [stored, OrderedDict.put, OrderedDict.keys, OrderedDict.moveToEnd_setItem_entries,
    List.map_append]
  rfl

theorem newest_setCore (key value : Arg) (ttl : Option Time) :
    Newest store (store.setCore now key value ttl) key :=
  newest_of_put (List.Sublist.refl _) (setCore_data store now key value ttl)

theorem newest_incrCore (key : Arg) (new : Int) :
    Newest store (store.incrCore now key new) key := by
  refine @newest_of_put _ _ (store.fetch now key).2.data _ _ ?_ rfl
  rcases fetch_cases store now key with ⟨-, fetched⟩ | ⟨entry, -, -, fetched⟩ <;> rw [fetched]
  rw [remove_data]
  exact List.filter_sublist.map Prod.fst

/-- A call stores a content under the key that it touches and then evicts, or it leaves
the pending evictions alone.  Without evictions, the live view that it leaves depends
only on the live view that it finds. -/
theorem call_cases (call : Call) :
    (∃ key core, call.touched store now = some key ∧ Newest store core key ∧
        (store.call now call).2 = core.evict now ∧ Keeps store core ∧
        core.evicted = store.evicted ∧
        core.live now = (call.onLive now (store.live now)).2) ∨
      ((store.call now call).2.evicted = store.evicted ∧
        (store.call now call).2.live now = (call.onLive now (store.live now)).2) := by
  have fetched := fun key => (fetch_frame store now key).2.2
  have swept : (store.sweepExpired now).2.evicted = store.evicted :=
    (sweep_frame store).2.2.2
  cases call with
  | set key value ttl =>
      exact Or.inl ⟨key, store.setCore now key value ttl, rfl, newest_setCore store now key value ttl,
        set_eq store now key value ttl, keeps_setCore store now key value ttl,
        setCore_evicted store now key value ttl, live_setCore store now key value ttl⟩
  | incr key delta =>
      rcases incr_cases store now key delta with ⟨_, outcome, failed⟩ | ⟨new, outcome, stored⟩
      · right
        simp only [Store.call, failed, Call.onLive, outcome]
        exact ⟨fetched key, live_fetch store now key⟩
      · left
        refine ⟨key, store.incrCore now key new, ?_, newest_incrCore store now key new, ?_,
          keeps_incrCore store now key new, fetched key, ?_⟩
        · simp only [Call.touched, stored]
          rfl
        · simp only [Store.call, stored]
        · simp only [Call.onLive, outcome]
          exact live_incrCore store now key new
  | delete key =>
      right
      refine ⟨?_, live_delete store now key⟩
      obtain ⟨expired, deleted⟩ := delete_store store now key
      simp only [Store.call]
      rw [deleted, remove_evicted]
  | expire key ttl =>
      right
      refine ⟨?_, live_expire store now key ttl⟩
      simp only [Store.call]
      rcases expire_cases store now key ttl with ⟨-, done⟩ | ⟨entry, -, -, done⟩ <;>
        simp [done]
  | persist key =>
      right
      refine ⟨?_, live_persist store now key⟩
      simp only [Store.call]
      rcases persist_cases store now key with
        ⟨-, done⟩ | ⟨value, -, done⟩ | ⟨entry, expireAt, -, -, -, done⟩ <;> simp [done]
  | flush => exact Or.inr ⟨rfl, rfl⟩
  | get key | existsKey key =>
      right
      refine ⟨?_, live_get store now key⟩
      simp only [Store.call, Store.existsKey, Store.get]
      have fetchedKey := fetched key
      split <;> rename_i same <;> rw [same] at fetchedKey <;> exact fetchedKey
  | ttl key =>
      right
      simp only [Store.call, ttl_store]
      exact ⟨fetched key, live_fetch store now key⟩
  | keys | snapshot | len | sweepExpired => exact Or.inr ⟨swept, live_sweep⟩

/-- Only the eviction adds to the pending evictions. -/
theorem evicted_call (unlimited : store.maxmemory = 0) (call : Call) :
    (store.call now call).2.evicted = store.evicted := by
  rcases call_cases store now call with
    ⟨key, core, -, -, done, keeps, pending, -⟩ | ⟨pending, -⟩
  · rw [done, evict_of_unlimited _ now (keeps.maxmemory.trans unlimited), pending]
  · exact pending

/-- All cells of a store, expired or not, as a plain map. -/
def plain (store : Store) : PlainMap := fun key => store.cells.get? key

theorem live_plain (key : Arg) :
    ExpiringMap.live now (store.plain key) = (store.live now).get? key := by
  rw [plain, live, get?_prune]

theorem plain_eq (key : Arg) :
    store.plain key = (store.data.get? key).map Entry.content :=
  get?_cells store key

theorem plain_remove (key : Arg) (expired : Bool) (other : Arg) :
    (store.remove key expired).plain other = if other = key then none else store.plain other := by
  rw [plain, cells_remove, OrderedDict.get?_pop]
  rfl

theorem plain_put (key value : Arg) (expireAt : Option Time) (other : Arg) :
    (store.put key value expireAt).plain other =
      if other = key then some (value, expireAt) else store.plain other := by
  rw [plain, cells_put, OrderedDict.get?_put]
  rfl

theorem purged_remove {key : Arg} (dead : (store.live now).get? key = none) (other : Arg) :
    Purged now (store.plain other) ((store.remove key true).plain other) := by
  rw [plain_remove]
  split_ifs with same
  · subst other
    exact Purged.of_dead ((live_plain store now key).trans dead)
  · exact Purged.refl now _

theorem purged_fetch (key other : Arg) :
    Purged now (store.plain other) ((store.fetch now key).2.plain other) := by
  rcases fetch_cases store now key with ⟨dead, fetched⟩ | ⟨entry, -, -, fetched⟩ <;>
    rw [fetched]
  · exact purged_remove store now dead other
  · exact Purged.refl now _

theorem purged_get (key other : Arg) :
    Purged now (store.plain other) ((store.get now key).2.plain other) := by
  unfold Store.get
  rcases fetch_cases store now key with ⟨dead, fetched⟩ | ⟨entry, -, -, fetched⟩ <;>
    rw [fetched]
  · exact purged_remove store now dead other
  · rw [plain_eq, plain_eq, OrderedDict.get?_moveToEnd]
    exact Purged.refl now _

theorem purged_sweep (other : Arg) :
    Purged now (store.plain other)
      ((store.sweepExpired now).2.plain other) := by
  let holds (swept : Store) : Prop :=
    Purged now (store.plain other) (swept.plain other)
  have kept : holds (store.sweepExpired now).2 := by
    refine sweepLoop_induct ?_ ?_ _ _ (Purged.refl now _)
    · intro swept record rest purged _ _
      exact purged
    · intro swept record rest entry purged _ found deadline isDue
      let popped : Store := { swept with expiryHeap := rest }
      have dead : (popped.live now).get? (ofLex record).2 = none := by
        rw [get?_live, show popped.data = swept.data from rfl, found]
        apply ExpiringMap.live_some_of_not_alive
        rw [deadline, ExpiringMap.alive_some]
        exact not_lt_of_ge isDue
      exact purged.trans (purged_remove popped now dead other)
  exact kept

theorem purged_incr (unlimited : store.maxmemory = 0) (key : Arg) (delta : Int)
    (other : Arg) :
    Purged now ((Effect.act key (.modify (incrementUpdate key delta))).apply now
      store.plain other) ((store.incr now key delta).2.plain other) := by
  rcases incr_cases store now key delta with ⟨_, fails, failed⟩ | ⟨new, outcome, stored⟩
  · rw [failed]
    refine Purged.act ?_ (fun other _ => purged_fetch store now key other) other
    have unchanged : (Action.modify (incrementUpdate key delta)).apply now (store.plain key) =
        store.plain key := by
      simp only [Action.apply, live_plain]
      cases live : (store.live now).get? key with
      | none =>
          rw [live] at fails
          simp only [Option.map_none] at fails
          simp [incrementUpdate, fails]
      | some content =>
          rw [live] at fails
          simp only [Option.map_some] at fails
          simp [incrementUpdate, fails]
    rw [unchanged]
    exact purged_fetch store now key key
  · have kept := keeps_incrCore store now key new
    rw [stored, evict_of_unlimited _ now (kept.maxmemory.trans unlimited)]
    refine Purged.act ?_ ?_ other
    · simp only [incrCore, plain_put, if_true, Action.apply, live_plain]
      cases live : (store.live now).get? key with
      | none =>
          rw [live] at outcome
          simp only [Option.map_none] at outcome
          simpa [incrementUpdate, outcome] using Purged.refl now _
      | some content =>
          rw [live] at outcome
          simp only [Option.map_some] at outcome
          simpa [incrementUpdate, outcome] using Purged.refl now _
    · intro other different
      rw [incrCore, plain_put, if_neg different]
      exact purged_fetch store now key other

/-- A call acts on all cells as on the plain map, except that it may purge
expired ones. -/
theorem purged_call (unlimited : store.maxmemory = 0) (call : Call) (other : Arg) :
    Purged now (call.apply now store.plain other)
      ((store.call now call).2.plain other) := by
  cases call with
  | set key value ttl =>
      have kept := keeps_setCore store now key value ttl
      have stored (other : Arg) : (store.setCore now key value ttl).plain other =
          if other = key then some (value, ttl.map (now + ·)) else store.plain other := by
        rw [plain, cells_setCore, OrderedDict.get?_put]
        rfl
      simp only [Store.call, set_eq]
      rw [evict_of_unlimited _ now (kept.maxmemory.trans unlimited)]
      refine Purged.act ?_ ?_ other
      · rw [stored, if_pos rfl]
        exact Purged.refl now _
      · intro other different
        rw [stored, if_neg different]
        exact Purged.refl now _
  | incr key delta => exact purged_incr store now unlimited key delta other
  | delete key =>
      obtain ⟨expired, deleted⟩ := delete_store store now key
      simp only [Store.call]
      rw [deleted]
      refine Purged.act ?_ ?_ other
      · rw [plain_remove, if_pos rfl]
        exact Purged.refl now _
      · intro other different
        rw [plain_remove, if_neg different]
        exact Purged.refl now _
  | expire key ttl =>
      simp only [Store.call]
      rcases expire_cases store now key ttl with ⟨dead, done⟩ | ⟨entry, present, live, done⟩
      · rw [done]
        refine Purged.act ?_ (fun other _ => purged_remove store now dead other) other
        rw [Action.apply, live_plain, dead, plain_remove, if_pos rfl]
        exact Purged.refl now _
      · rw [done]
        refine Purged.act ?_ ?_ other
        · rw [Action.apply, live_plain, live, plain_eq, schedule_data, OrderedDict.get?_setItem,
            if_pos rfl]
          exact Purged.refl now _
        · intro other different
          rw [plain_eq, plain_eq, schedule_data, OrderedDict.get?_setItem, if_neg different]
          exact Purged.refl now _
  | persist key =>
      simp only [Store.call]
      rcases persist_cases store now key with
        ⟨dead, done⟩ | ⟨value, live, done⟩ | ⟨entry, expireAt, present, live, -, done⟩
      · rw [done]
        refine Purged.act ?_ (fun other _ => purged_remove store now dead other) other
        rw [Action.apply, live_plain, dead, plain_remove, if_pos rfl]
        exact Purged.refl now _
      · rw [done]
        refine Purged.act ?_ (fun other _ => Purged.refl now _) other
        rw [Action.apply, live_plain, live]
        rw [← live_plain] at live
        rw [(ExpiringMap.live_eq_some_iff.mp live).1]
        exact Purged.refl now _
      · rw [done]
        refine Purged.act ?_ ?_ other
        · rw [Action.apply, live_plain, live, plain_eq, OrderedDict.get?_setItem, if_pos rfl]
          exact Purged.refl now _
        · intro other different
          rw [plain_eq, plain_eq, OrderedDict.get?_setItem, if_neg different]
          exact Purged.refl now _
  | flush => exact Purged.refl now _
  | get key | existsKey key => exact purged_get store now key other
  | ttl key =>
      simp only [Store.call, ttl_store]
      exact purged_fetch store now key other
  | keys | snapshot | len | sweepExpired => exact purged_sweep store now other

variable {store now}

/-- The live view a call leaves depends only on the live view it finds. -/
theorem live_call (unlimited : store.maxmemory = 0) (call : Call) :
    (store.call now call).2.live now = (call.onLive now (store.live now)).2 := by
  rcases call_cases store now call with
    ⟨key, core, -, -, done, keeps, -, live⟩ | ⟨-, live⟩
  · rw [done, evict_of_unlimited _ now (keeps.maxmemory.trans unlimited), live]
  · exact live

/-- So does the result of every call but the sweep. -/
theorem call_result (scheduled : Scheduled store) {call : Call}
    (visible : call.Visible) :
    (store.call now call).1 = (call.onLive now (store.live now)).1 := by
  cases call with
  | set key value ttl => rfl
  | incr key delta => exact congrArg Result.number (incr_result store now key delta)
  | delete key => exact congrArg Result.flag (delete_result store now key)
  | expire key ttl => exact congrArg Result.flag (expire_result store now key ttl)
  | persist key => exact congrArg Result.flag (persist_result store now key)
  | flush => rfl
  | get key => exact congrArg Result.value (get_result store now key)
  | existsKey key =>
      have found := get_result store now key
      simp only [Store.call, Store.existsKey, Call.onLive, found, Option.isSome_map]
  | ttl key => exact congrArg Result.remaining (ttl_result store now key)
  | keys => exact congrArg Result.keys (keys_result store now scheduled)
  | snapshot => exact congrArg Result.entries (snapshot_result store now)
  | len => exact congrArg Result.count (len_result store now scheduled)
  | sweepExpired => exact absurd rfl visible

end Store

end Ideal

section Plain

variable {now : Time} {dict : OrderedDict Arg Content} {plain : PlainMap}

/-- A dictionary of the live contents of a plain map. -/
def Shows (now : Time) (dict : OrderedDict Arg Content) (plain : PlainMap) : Prop :=
  ∀ key, dict.get? key = ExpiringMap.live now (plain key)

theorem Shows.live (shows : Shows now dict plain) (key : Arg) :
    ExpiringMap.live now (dict.get? key) = dict.get? key := by
  rw [shows key, ExpiringMap.live_live (le_refl now)]

theorem Shows.prune {later : Time} (shows : Shows now dict plain)
    (inOrder : now ≤ later) : Shows later (prune later dict) plain := by
  intro key
  rw [get?_prune, shows key, ExpiringMap.live_live inOrder]

/-- One effect on one key, when the dictionary changes there alone. -/
theorem Shows.act (shows : Shows now dict plain) {key : Arg}
    {action : ExpiringMap.Action Arg Time} {changed : OrderedDict Arg Content}
    (there : changed.get? key =
      ExpiringMap.live now (action.apply now (dict.get? key)))
    (elsewhere : ∀ other, other ≠ key → changed.get? other = dict.get? other) :
    Shows now changed ((Effect.act key action).apply now plain) := by
  intro other
  by_cases same : other = key
  · subst other
    rw [there, ExpiringMap.Effect.apply_act_self, shows key]
    exact action.live_apply_live now (plain key)
  · rw [elsewhere other same, shows other,
      ExpiringMap.Effect.apply_act_of_ne now plain action (Ne.symm same)]

/-- The dictionary of live contents answers as the plain map does. -/
theorem onLive_answers (shows : Shows now dict plain) {call : Call}
    (visible : call.Visible) : call.Answers now plain (call.onLive now dict).1 := by
  cases call with
  | set key value lifetime => rfl
  | flush => rfl
  | incr key delta => simp [Call.Answers, Call.onLive, shows key]
  | delete key => simp [Call.Answers, Call.onLive, shows key]
  | expire key lifetime => simp [Call.Answers, Call.onLive, shows key]
  | persist key => simp [Call.Answers, Call.onLive, shows key]
  | get key => simp [Call.Answers, Call.onLive, shows key]
  | existsKey key => simp [Call.Answers, Call.onLive, shows key]
  | ttl key => simp [Call.Answers, Call.onLive, shows key]
  | keys =>
      refine ⟨dict.keys, rfl, dict.nodup_keys, ?_⟩
      intro key
      rw [← shows key, OrderedDict.get?_isSome_iff]
  | snapshot =>
      refine ⟨_, rfl, ?_, ?_⟩
      · simpa [List.map_map, Function.comp_def] using dict.nodupKeys
      · intro key value left
        rw [← shows key]
        simp only [OrderedDict.get?_eq_some_iff, List.mem_map, Prod.mk.injEq,
          Prod.exists]
        constructor
        · rintro ⟨other, old, deadline, member, rfl, rfl, rfl⟩
          exact ⟨deadline, member, rfl⟩
        · rintro ⟨deadline, member, rfl⟩
          exact ⟨key, value, deadline, member, rfl, rfl, rfl⟩
  | len =>
      have listed : {key | (ExpiringMap.live now (plain key)).isSome = true} =
          (dict.keys.toFinset : Set Arg) := by
        ext key
        rw [List.coe_toFinset, Set.mem_ofPred_eq, Set.mem_ofPred_eq, ← shows key,
          OrderedDict.get?_isSome_iff]
      simp only [Call.Answers, Call.onLive, listed, Set.ncard_coe_finset,
        List.toFinset_card_of_nodup dict.nodup_keys]
      simp [OrderedDict.size, OrderedDict.keys]
  | sweepExpired => exact absurd rfl visible

/-- What a call leaves in the dictionary is what it leaves live in the plain
map. -/
theorem onLive_shows (shows : Shows now dict plain) (call : Call) :
    Shows now (call.onLive now dict).2 (call.apply now plain) := by
  cases call with
  | set key value lifetime =>
      simp only [Call.onLive]
      apply shows.act
      · rw [get?_prune, OrderedDict.get?_put, if_pos rfl]
        rfl
      · intro other different
        rw [get?_prune, OrderedDict.get?_put, if_neg different, shows.live]
  | incr key delta =>
      simp only [Call.onLive]
      apply shows.act
      · cases outcome : Store.incremented ((dict.get? key).map Prod.fst) delta with
        | error message =>
            cases found : dict.get? key with
            | none =>
                rw [found] at outcome
                simp only [Option.map_none] at outcome
                simp [Action.apply, incrementUpdate, outcome]
            | some content =>
                have live := shows.live key
                rw [found] at live outcome
                simp only [Option.map_some] at outcome
                simp [Action.apply, incrementUpdate, live, outcome]
        | ok new =>
            dsimp only
            rw [OrderedDict.get?_put, if_pos rfl]
            cases found : dict.get? key with
            | none =>
                rw [found] at outcome
                simp only [Option.map_none] at outcome
                simp [Action.apply, incrementUpdate, outcome]
            | some content =>
                have live := shows.live key
                rw [found] at live outcome
                simp only [Option.map_some] at outcome
                obtain ⟨value, deadline⟩ := content
                have alive := (ExpiringMap.live_eq_some_iff.mp live).2
                simp [Action.apply, incrementUpdate, live, outcome,
                  ExpiringMap.live_some_of_alive _ alive]
      · intro other different
        split
        · rfl
        · rw [OrderedDict.get?_put, if_neg different]
  | delete key =>
      apply shows.act
      · simp [Call.onLive, Action.apply]
      · intro other different
        simp [Call.onLive, OrderedDict.get?_pop, different]
  | expire key lifetime =>
      simp only [Call.onLive]
      apply shows.act
      · have live := shows.live key
        simp only [Action.apply, live]
        cases found : dict.get? key with
        | none => simp [found]
        | some content =>
            simp [get?_prune, OrderedDict.get?_setItem]
      · intro other different
        split
        · rfl
        · rw [get?_prune, OrderedDict.get?_setItem, if_neg different, shows.live]
  | persist key =>
      simp only [Call.onLive]
      apply shows.act
      · have live := shows.live key
        simp only [Action.apply, live]
        split
        · rename_i value deadline found
          simp [found, OrderedDict.get?_setItem]
        · rename_i persistent
          cases found : dict.get? key with
          | none => simp
          | some content =>
              obtain ⟨value, deadline⟩ := content
              cases deadline with
              | none => simp
              | some deadline => exact absurd found (persistent value deadline)
      · intro other different
        split
        · rw [OrderedDict.get?_setItem, if_neg different]
        · rfl
  | flush => intro key; rfl
  | get key =>
      intro other
      simpa [Call.onLive, Call.apply, Call.effect] using shows other
  | existsKey key =>
      intro other
      simpa [Call.onLive, Call.apply, Call.effect] using shows other
  | ttl key => exact shows
  | keys => exact shows
  | snapshot => exact shows
  | len => exact shows
  | sweepExpired => exact shows

end Plain

section Runs

theorem Nondecreasing.tail {α : Type*} {now : Time} {step : α} {run : List (Time × α)}
    (clock : Nondecreasing ((now, step) :: run)) : Nondecreasing run :=
  (List.pairwise_cons.mp clock).2

theorem Nondecreasing.head_le {α : Type*} {now : Time} {step : α}
    {run : List (Time × α)} (clock : Nondecreasing ((now, step) :: run))
    {later : Time × α} (member : later ∈ run) : now ≤ later.1 :=
  (List.pairwise_cons.mp clock).1 _ (List.mem_map_of_mem member)

namespace Store

variable {store other : Store} {now : Time}

theorem live_init (maxmemory : Nat) (policy : Policy) (now : Time) :
    (init maxmemory policy).live now = OrderedDict.empty :=
  rfl

theorem scheduled_init (maxmemory : Nat) (policy : Policy) :
    Scheduled (init maxmemory policy) :=
  ⟨BinaryHeap.ordered_empty, fun present => (by cases present)⟩

theorem accounted_init (maxmemory : Nat) (policy : Policy) :
    Accounted (init maxmemory policy) :=
  ⟨fun present => (by cases present), rfl⟩

/-- A run answers as the plain map that its live view shows. -/
theorem answers_plain {calls : List (Time × Call)} {plain : PlainMap}
    (clock : Nondecreasing calls) (scheduled : Scheduled store)
    (unlimited : store.maxmemory = 0)
    (shows : ∀ step ∈ calls, Shows step.1 (store.live step.1) plain) :
    AnswersAll plain calls (store.answers calls) := by
  induction calls generalizing store plain with
  | nil => rfl
  | cons step rest ih =>
      obtain ⟨now, call⟩ := step
      have kept := keeps_call store now call
      have here := shows (now, call) (List.mem_cons_self ..)
      have later := ih clock.tail (kept.scheduled scheduled)
        (kept.maxmemory.trans unlimited) fun step member => by
          have inOrder := clock.head_le member
          rw [live_later inOrder, live_call unlimited]
          exact (onLive_shows here call).prune inOrder
      simp only [answers, AnswersAll]
      split_ifs with visible
      · refine ⟨_, _, rfl, ?_, later⟩
        rw [call_result scheduled visible]
        exact onLive_answers here visible
      · exact later

/-- Two stores with one live view answer alike, with and without the sweeps. -/
theorem answers_without_sweeps {calls : List (Time × Call)}
    (clock : Nondecreasing calls) (scheduled : Scheduled store)
    (otherScheduled : Scheduled other) (unlimited : store.maxmemory = 0)
    (otherUnlimited : other.maxmemory = 0)
    (same : ∀ step ∈ calls, store.live step.1 = other.live step.1) :
    store.answers calls =
      other.answers (calls.filter fun step => step.2.Visible) := by
  induction calls generalizing store other with
  | nil => rfl
  | cons step rest ih =>
      obtain ⟨now, call⟩ := step
      have kept := keeps_call store now call
      have here := same (now, call) (List.mem_cons_self ..)
      by_cases visible : call.Visible
      · have otherKept := keeps_call other now call
        have results : (store.call now call).1 = (other.call now call).1 := by
          rw [call_result scheduled visible, call_result otherScheduled visible,
            here]
        rw [List.filter_cons_of_pos (by simpa using visible)]
        simp only [answers, if_pos visible, results]
        congr 1
        refine ih clock.tail (kept.scheduled scheduled)
          (otherKept.scheduled otherScheduled) (kept.maxmemory.trans unlimited)
          (otherKept.maxmemory.trans otherUnlimited) fun step member => ?_
        have inOrder := clock.head_le member
        rw [live_later inOrder, live_call unlimited, here,
          live_later inOrder (other.call now call).2,
          live_call otherUnlimited]
      · rw [List.filter_cons_of_neg (by simpa using visible)]
        simp only [answers, if_neg visible]
        refine ih clock.tail (kept.scheduled scheduled) otherScheduled
          (kept.maxmemory.trans unlimited) otherUnlimited fun step member => ?_
        have isSweep : call = .sweepExpired := not_not.mp visible
        have inOrder := clock.head_le member
        rw [isSweep, live_later inOrder, ← same step (List.mem_cons_of_mem _ member),
          live_later inOrder store]
        exact congrArg (prune step.1) live_sweep

end Store

/-- Any run of calls without a memory limit answers as the plain map, and two
runs that differ in sweeps alone answer alike. -/
theorem store_refines_plain_map (policy : Policy) (calls : List (Time × Call))
    (clock : Nondecreasing calls) :
    AnswersAll (fun _ => none) calls ((Store.init 0 policy).answers calls) ∧
      ∀ others, Nondecreasing others →
        (others.filter fun step => step.2.Visible) =
          (calls.filter fun step => step.2.Visible) →
        (Store.init 0 policy).answers others =
          (Store.init 0 policy).answers calls := by
  have scheduled := Store.scheduled_init 0 policy
  have alone {run : List (Time × Call)} (clock : Nondecreasing run) :
      (Store.init 0 policy).answers run =
        (Store.init 0 policy).answers (run.filter fun step => step.2.Visible) :=
    Store.answers_without_sweeps clock scheduled scheduled rfl rfl fun _ _ => rfl
  refine ⟨Store.answers_plain clock scheduled rfl fun _ _ _ => rfl, ?_⟩
  intro others othersClock same
  rw [alone othersClock, same, ← alone clock]

/-- A lifetime that ends between two sweeps, seen by a lookup and a listing. -/
theorem store_refines_plain_map_overdue :
    AnswersAll (fun _ => none)
      [(0, .set (.bytes [97]) (.bytes [49]) (some 1)), (2, .sweepExpired),
        (3, .get (.bytes [97])), (3, .keys)]
      ((Store.init 0 .allkeysLru).answers
        [(0, .set (.bytes [97]) (.bytes [49]) (some 1)), (2, .sweepExpired),
          (3, .get (.bytes [97])), (3, .keys)]) :=
  (store_refines_plain_map .allkeysLru _ (by decide +kernel)).1

end Runs

end MiniCache
