import MiniCache.CommandCalls
import MiniCache.StoreCache

/-!
# Commands on the store as a cache

A command changes the cache of a store by its calls.  A copy of the store without a limit,
on which the same calls are made, holds what the store holds and every key that it evicts.
-/

namespace MiniCache

open ExpiringMap (Action Alive Effect)
open LruCache (Alike Lagging Settled change run)
open Store (weigh)

section Calls

variable {now : Time} {store other : Store} {maxmemory : Nat} {policy : Policy}
  {calls : List Call}

theorem Performs.cache (performs : Performs now store calls other)
    (sound : store.Sound maxmemory policy) :
    other.Sound maxmemory policy ∧
      other.cache now =
        (store.cache now).run (capOf maxmemory policy) weigh (calls.map (Call.update now)) := by
  induction performs with
  | refl => exact ⟨sound, rfl⟩
  | call call _ ih =>
      refine ⟨ih.1.call now call, ?_⟩
      rw [Store.cache_call ih.1, ih.2, List.map_append, LruCache.run_append]
      rfl
  | count hits misses _ ih =>
      exact ⟨⟨ih.1.scheduled.of_heap rfl rfl, ih.1.accounted.of_data rfl rfl, ih.1.limit,
        ih.1.evicts, ih.1.capped⟩, ih.2⟩

/-- The key that a call reads to decide what it writes. -/
def Call.read : Call → Option Arg
  | .incr key _ | .expire key _ | .persist key => some key
  | _ => none

/-- Nothing in the dictionary has expired. -/
def Lives (now : Time) (dict : OrderedDict Arg Content) : Prop :=
  ∀ key, ExpiringMap.live now (dict.get? key) = dict.get? key

theorem Store.lives (store : Store) (now : Time) : Lives now (store.live now) := by
  intro key
  rw [← Store.live_plain, ExpiringMap.live_live (le_refl now)]

variable {dict copy : OrderedDict Arg Content} {call : Call} {cap : Option Nat} {lost : List Arg}

theorem get?_update (lives : Lives now dict) (call : Call) (key : Arg) :
    (call.update now dict).get? key = ExpiringMap.live now (call.apply now dict.get? key) :=
  onLive_shows (fun other => (lives other).symm) call key

theorem Lives.update (lives : Lives now dict) (call : Call) : Lives now (call.update now dict) := by
  intro key
  rw [get?_update lives, ExpiringMap.live_live (le_refl now)]

theorem Lives.change (lives : Lives now dict) (call : Call) :
    Lives now (change cap weigh ⟨dict, lost⟩ (call.update now)).dict := by
  cases cap with
  | none => exact lives.update call
  | some limit =>
      intro key
      simp only [LruCache.change, LruCache.settle]
      rw [OrderedDict.get?_trim]
      split_ifs
      · rfl
      · exact lives.update call key

theorem Lives.run (lives : Lives now dict) :
    Lives now (run cap weigh ⟨dict, lost⟩ (calls.map (Call.update now))).dict := by
  induction calls generalizing dict lost with
  | nil => exact lives
  | cons call rest ih => exact ih (lives.change call)

/-- Two dictionaries are changed alike when they agree at the key that the call reads. -/
theorem alike_update (lives : Lives now dict) (livesCopy : Lives now copy)
    (reads : ∀ key ∈ call.read, dict.get? key = copy.get? key) :
    Alike (call.update now) dict copy.get? (call.update now copy).get? := by
  intro key
  rw [get?_update lives, get?_update livesCopy]
  cases call with
  | set other value lifetime | delete other | incr other delta | expire other lifetime
  | persist other =>
      simp only [Call.apply, Call.effect]
      by_cases same : key = other
      · subst key
        left
        simp only [ExpiringMap.Effect.apply_act_self]
        first
          | rfl
          | rw [reads other rfl]
      · right
        rw [ExpiringMap.Effect.apply_act_of_ne now _ _ (Ne.symm same), lives,
          ExpiringMap.Effect.apply_act_of_ne now _ _ (Ne.symm same), livesCopy]
        exact ⟨rfl, rfl⟩
  | flush =>
      left
      simp only [Call.apply, Call.effect, ExpiringMap.Effect.apply_flush]
  | get | existsKey | ttl | keys | snapshot | len | sweepExpired =>
      right
      exact ⟨lives key, livesCopy key⟩

end Calls

section Copies

/-- A call that looks a key up or stores a value that lasts. -/
def Call.Fills : Call → Prop
  | .set _ _ lifetime => ∀ ttl ∈ lifetime, 0 < ttl
  | .get _ | .existsKey _ => True
  | _ => False

def Call.Deletes : Call → Prop
  | .delete _ => True
  | _ => False

/-- Calls as a write command makes them: at most one, lookups and values only, or deletions
only. -/
def Uniform (calls : List Call) : Prop :=
  calls.length ≤ 1 ∨ (∀ call ∈ calls, call.Fills) ∨ ∀ call ∈ calls, call.Deletes

theorem fills_pairCalls (pairs : List Arg) : ∀ call ∈ pairCalls pairs, call.Fills := by
  induction pairs using pairCalls.induct with
  | case1 key value rest ih =>
      rw [pairCalls, List.forall_mem_cons]
      refine ⟨fun ttl given => ?_, ih⟩
      cases given
  | case2 pairs single =>
      rw [pairCalls]
      · exact List.forall_mem_nil _
      · exact single

theorem fills_lookups (opts : SetOptions) : ∀ call ∈ opts.lookups, call.Fills := by
  intro call member
  unfold SetOptions.lookups at member
  split_ifs at member <;> simp only [List.mem_cons, List.not_mem_nil, or_false] at member
  · rcases member with rfl | rfl <;> trivial
  · obtain rfl := member
    trivial

/-- The write commands other than `SET`, `MSET` and `DEL` make one call at most. -/
theorem length_calls_le_one {command : Command} (writes : command.Writes) (notSet : command ≠ .set)
    (notMset : command ≠ .mset) (notDel : command ≠ .del) (clock : Clock)
    (dict : OrderedDict Arg Content) (args : List Arg) :
    (command.calls clock dict args).length ≤ 1 := by
  cases command with
  | set => exact absurd rfl notSet
  | mset => exact absurd rfl notMset
  | del => exact absurd rfl notDel
  | incr | decr | persist =>
      match args with
      | [key] => exact Nat.le_refl 1
      | [] | _ :: _ :: _ => exact Nat.zero_le 1
  | incrby | decrby | expire | pexpire =>
      match args with
      | [key, amount] =>
          simp only [Command.calls]
          cases parseInt amount with
          | error raised => exact Nat.zero_le 1
          | ok number => exact Nat.le_refl 1
      | [] | [_] | _ :: _ :: _ :: _ => exact Nat.zero_le 1
  | pexpireat =>
      match args with
      | [key, moment] =>
          simp only [Command.calls]
          cases intOfText (toText moment) with
          | none => exact Nat.zero_le 1
          | some unixMs =>
              dsimp only
              split_ifs
              · exact Nat.zero_le 1
              · exact Nat.le_refl 1
      | [] | [_] | _ :: _ :: _ :: _ => exact Nat.zero_le 1
  | flushdb =>
      simp only [Command.calls]
      split_ifs
      · exact Nat.le_refl 1
      · exact Nat.zero_le 1
  | ping | echo | get | mget | existsKey | ttl | keys | dbsize => exact writes.elim

theorem uniform_calls {command : Command} (writes : command.Writes) (clock : Clock)
    (dict : OrderedDict Arg Content) (args : List Arg) :
    Uniform (command.calls clock dict args) := by
  by_cases isSet : command = .set
  · subst isSet
    simp only [Command.calls]
    cases parsed : parseSet args with
    | error raised => exact Or.inl (Nat.zero_le 1)
    | ok opts =>
        refine Or.inr (Or.inl fun call member => ?_)
        rcases List.mem_append.mp member with looks | stores
        · exact fills_lookups opts call looks
        · split_ifs at stores
          · cases stores
          · obtain rfl := List.mem_singleton.mp stores
            exact fun ttl given => ((parseSet_ok parsed).2 ttl given).1
  by_cases isMset : command = .mset
  · subst isMset
    simp only [Command.calls]
    split_ifs
    · exact Or.inl (Nat.zero_le 1)
    · exact Or.inr (Or.inl (fills_pairCalls args))
  by_cases isDel : command = .del
  · subst isDel
    refine Or.inr (Or.inr fun call member => ?_)
    obtain ⟨key, -, rfl⟩ := List.mem_map.mp member
    trivial
  · exact Or.inl (length_calls_le_one writes isSet isMset isDel clock dict args)

variable {now : Time} {dict copy : OrderedDict Arg Content} {calls : List Call}
  {cap : Option Nat} {lost : List Arg}

theorem alive_lifetime {lifetime : Option Time} (lasts : ∀ ttl ∈ lifetime, 0 < ttl) :
    Alive now (lifetime.map (now + ·)) := by
  intro deadline given
  obtain ⟨ttl, isTtl, rfl⟩ := Option.map_eq_some_iff.mp given
  exact lt_add_of_pos_right now (lasts ttl isTtl)

/-- A value that lasts is there, and so is what was there before. -/
theorem Call.Fills.keeps {call : Call} (fills : call.Fills) (lives : Lives now copy) {key : Arg}
    (present : copy.get? key ≠ none) : (call.update now copy).get? key ≠ none := by
  rw [get?_update lives]
  cases call with
  | set other value lifetime =>
      simp only [Call.apply, Call.effect]
      by_cases same : key = other
      · subst key
        rw [ExpiringMap.Effect.apply_act_self, Action.apply,
          ExpiringMap.live_some_of_alive value (alive_lifetime fills)]
        exact Option.some_ne_none _
      · rwa [ExpiringMap.Effect.apply_act_of_ne now _ _ (Ne.symm same), lives]
  | get | existsKey =>
      simp only [Call.apply, Call.effect]
      rwa [lives]
  | incr | delete | expire | persist | flush | ttl | keys | snapshot | len | sweepExpired =>
      exact fills.elim

theorem Call.Fills.read_eq {call : Call} (fills : call.Fills) : call.read = none := by
  cases call <;> first | rfl | exact fills.elim

/-- What a copy without a limit holds. -/
def uncapped (now : Time) (copy : OrderedDict Arg Content) (calls : List Call) :
    OrderedDict Arg Content :=
  (run none weigh ⟨copy, []⟩ (calls.map (Call.update now))).dict

theorem uncapped_cons (call : Call) (calls : List Call) :
    uncapped now copy (call :: calls) = uncapped now (call.update now copy) calls := rfl

/-- A value that lasts stays when it is stored. -/
theorem get?_change_set (lives : Lives now dict) (key value : Arg) {lifetime : Option Time}
    (lasts : ∀ ttl ∈ lifetime, 0 < ttl) :
    (change cap weigh ⟨dict, lost⟩ (Call.update now (.set key value lifetime))).dict.get? key =
      some (value, lifetime.map (now + ·)) := by
  have alive := @alive_lifetime now _ lasts
  have stored : (Call.update now (.set key value lifetime) dict).get? key =
      some (value, lifetime.map (now + ·)) := by
    rw [get?_update lives]
    simp only [Call.apply, Call.effect]
    rw [ExpiringMap.Effect.apply_act_self, Action.apply,
      ExpiringMap.live_some_of_alive value alive]
  cases cap with
  | none => exact stored
  | some limit =>
      have newest : key ∉ (Call.update now (.set key value lifetime) dict).victims limit weigh := by
        have put : Call.update now (.set key value lifetime) dict =
            (prune now dict).put key (value, lifetime.map (now + ·)) :=
          prune_put_of_alive alive
        rw [put]
        exact OrderedDict.not_mem_victims_put _ _ _
      simp only [change, LruCache.settle]
      rw [OrderedDict.get?_trim, if_neg newest, stored]

theorem lags_of_fills (fill : ∀ call ∈ calls, call.Fills) (lives : Lives now dict)
    (livesCopy : Lives now copy) (lags : Lagging ⟨dict, lost⟩ copy.get?) :
    Lagging (run cap weigh ⟨dict, lost⟩ (calls.map (Call.update now)))
      (uncapped now copy calls).get? := by
  induction calls generalizing dict copy lost with
  | nil => exact lags
  | cons call calls ih =>
      obtain ⟨fills, fillRest⟩ := List.forall_mem_cons.mp fill
      rw [uncapped_cons]
      refine ih fillRest (lives.change call) (livesCopy.update call) ?_
      refine lags.change (alike_update lives livesCopy ?_) fun key isLost =>
        fills.keeps livesCopy (lags.owed key isLost)
      rw [fills.read_eq]
      nofun

theorem lags_of_deletes (delete : ∀ call ∈ calls, call.Deletes)
    (settled : Settled cap weigh dict) (same : ∀ key, dict.get? key = copy.get? key) :
    Lagging (run cap weigh ⟨dict, []⟩ (calls.map (Call.update now)))
      (uncapped now copy calls).get? := by
  induction calls generalizing dict copy with
  | nil => exact LruCache.lags_refl same
  | cons call calls ih =>
      obtain ⟨deletes, deleteRest⟩ := List.forall_mem_cons.mp delete
      cases call with
      | delete key =>
          have fits : Settled cap weigh (dict.pop key) := settled.sublist List.filter_sublist
          have changed : change cap weigh ⟨dict, []⟩ (Call.update now (.delete key)) =
              ⟨dict.pop key, []⟩ := LruCache.settle_of_settled fits
          rw [List.map_cons, LruCache.run_cons, changed, uncapped_cons]
          refine ih deleteRest fits fun other => ?_
          change (dict.pop key).get? other = (copy.pop key).get? other
          rw [OrderedDict.get?_pop, OrderedDict.get?_pop, same]
      | set | incr | expire | persist | flush | get | existsKey | ttl | keys | snapshot | len
      | sweepExpired => exact deletes.elim

/-- The calls of a write command keep the copy ahead of the store. -/
theorem Uniform.lags (uniform : Uniform calls) (settled : Settled cap weigh dict)
    (lives : Lives now dict) (livesCopy : Lives now copy)
    (same : ∀ key, dict.get? key = copy.get? key) :
    Lagging (run cap weigh ⟨dict, []⟩ (calls.map (Call.update now)))
      (uncapped now copy calls).get? := by
  rcases uniform with few | fill | delete
  · match calls, few with
    | [], _ => exact LruCache.lags_refl same
    | [call], _ =>
        exact (LruCache.lags_refl same).change
          (alike_update lives livesCopy fun key _ => same key) fun key member => nomatch member
  · exact lags_of_fills fill lives livesCopy (LruCache.lags_refl same)
  · exact lags_of_deletes delete settled same

end Copies

end MiniCache
