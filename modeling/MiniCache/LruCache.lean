import MiniCache.OrderedDict
import MiniCache.Recency
import Mathlib.Algebra.Order.BigOperators.Group.List
import Mathlib.Algebra.Order.Group.Nat

/-!
# A dictionary that evicts

The entries of a dictionary stand in order of recency.  After every change the oldest ones
leave until the rest fits a cap, if there is one, and their keys are noted.  A map without
a cap that follows the same changes holds what the dictionary holds and possibly, at keys
that were noted, more.
-/

namespace OrderedDict

variable {κ ν : Type*} {limit : Nat} {weight : κ × ν → Nat}

/-- The dictionary after the oldest entries have left. -/
def trim (limit : Nat) (weight : κ × ν → Nat) (dict : OrderedDict κ ν) : OrderedDict κ ν where
  entries := Recency.trim limit weight dict.entries
  nodupKeys := by
    rw [Recency.trim_eq_drop]
    exact dict.nodupKeys.sublist ((List.drop_sublist _ _).map Prod.fst)

/-- The keys of the entries that leave, oldest first. -/
def victims (limit : Nat) (weight : κ × ν → Nat) (dict : OrderedDict κ ν) : List κ :=
  (Recency.victims limit weight dict.entries).map Prod.fst

theorem keys_eq_victims_append (dict : OrderedDict κ ν) :
    dict.keys = dict.victims limit weight ++ (dict.trim limit weight).keys := by
  rw [keys, keys, victims, trim, ← List.map_append, Recency.victims_append_trim]

theorem nodup_victims (dict : OrderedDict κ ν) : (dict.victims limit weight).Nodup := by
  have nodup := dict.nodup_keys
  rw [@keys_eq_victims_append _ _ limit weight] at nodup
  exact (List.nodup_append.mp nodup).1

theorem mem_keys_of_mem_victims {dict : OrderedDict κ ν} {key : κ}
    (leaves : key ∈ dict.victims limit weight) : key ∈ dict.keys := by
  rw [@keys_eq_victims_append _ _ limit weight]
  exact List.mem_append_left _ leaves

theorem trim_of_fits {dict : OrderedDict κ ν}
    (fits : Recency.Fits limit weight dict.entries) : dict.trim limit weight = dict :=
  OrderedDict.ext (Recency.trim_of_fits fits)

theorem victims_of_fits {dict : OrderedDict κ ν}
    (fits : Recency.Fits limit weight dict.entries) : dict.victims limit weight = [] := by
  rw [victims, Recency.victims_of_fits fits, List.map_nil]

variable [DecidableEq κ]

/-- What stays is unchanged. -/
theorem get?_trim (dict : OrderedDict κ ν) (key : κ) :
    (dict.trim limit weight).get? key =
      if key ∈ dict.victims limit weight then none else dict.get? key := by
  have split := @keys_eq_victims_append _ _ limit weight dict
  have nodup := dict.nodup_keys
  rw [split] at nodup
  split_ifs with leaves
  · rw [get?_eq_none_iff]
    intro stays
    exact (List.nodup_append.mp nodup).2.2 key leaves key stays rfl
  · cases found : dict.get? key with
    | none =>
        rw [get?_eq_none_iff, split, List.mem_append, not_or] at found
        exact get?_eq_none_iff.mpr found.2
    | some value =>
        have member := get?_eq_some_iff.mp found
        rw [← @Recency.victims_append_trim _ limit weight dict.entries, List.mem_append] at member
        refine get?_eq_some_iff.mpr (member.resolve_left fun left => ?_)
        exact leaves (List.mem_map_of_mem (f := Prod.fst) left)

/-- The newest key stays. -/
theorem not_mem_victims_put (dict : OrderedDict κ ν) (key : κ) (value : ν) :
    key ∉ (dict.put key value).victims limit weight := by
  intro leaves
  have newest : (key, value) ∈ ((dict.put key value).trim limit weight).entries := by
    change (key, value) ∈ Recency.trim limit weight (dict.put key value).entries
    rw [put, moveToEnd_setItem_entries]
    exact Recency.newest_mem_trim _ _
  have nodup := (dict.put key value).nodup_keys
  rw [@keys_eq_victims_append _ _ limit weight] at nodup
  exact (List.nodup_append.mp nodup).2.2 key leaves key (mem_keys_of_mem newest) rfl

end OrderedDict

/-- A dictionary, oldest entry first, with the keys that were evicted from it, in order. -/
structure LruCache (κ ν : Type*) where
  dict : OrderedDict κ ν
  lost : List κ

namespace LruCache

variable {κ ν : Type*} (cap : Option Nat) (weight : κ × ν → Nat)

/-- Evict what exceeds the cap. -/
def settle (cache : LruCache κ ν) : LruCache κ ν :=
  match cap with
  | none => cache
  | some limit =>
      ⟨cache.dict.trim limit weight, cache.lost ++ cache.dict.victims limit weight⟩

/-- Change the dictionary and evict. -/
def change (cache : LruCache κ ν) (update : OrderedDict κ ν → OrderedDict κ ν) : LruCache κ ν :=
  settle cap weight { cache with dict := update cache.dict }

/-- Changes in order. -/
def run (cache : LruCache κ ν) (updates : List (OrderedDict κ ν → OrderedDict κ ν)) :
    LruCache κ ν :=
  updates.foldl (change cap weight) cache

/-- The entries fit the cap. -/
def Settled (dict : OrderedDict κ ν) : Prop :=
  ∀ limit ∈ cap, Recency.Fits limit weight dict.entries

variable {cap weight} {cache : LruCache κ ν} {update : OrderedDict κ ν → OrderedDict κ ν}
  {updates : List (OrderedDict κ ν → OrderedDict κ ν)}

theorem run_cons : run cap weight cache (update :: updates) =
    run cap weight (change cap weight cache update) updates := rfl

theorem run_append (first second : List (OrderedDict κ ν → OrderedDict κ ν)) :
    run cap weight cache (first ++ second) =
      run cap weight (run cap weight cache first) second :=
  List.foldl_append

theorem settle_of_settled (settled : Settled cap weight cache.dict) :
    settle cap weight cache = cache := by
  cases cap with
  | none => rfl
  | some limit =>
      have fits := settled limit rfl
      rw [settle, OrderedDict.trim_of_fits fits, OrderedDict.victims_of_fits fits, List.append_nil]

/-- The keys lost in a run are noted after those lost before, which it does not read. -/
theorem run_lost (dict : OrderedDict κ ν) (lost : List κ) :
    run cap weight ⟨dict, lost⟩ updates =
      ⟨(run cap weight ⟨dict, []⟩ updates).dict,
        lost ++ (run cap weight ⟨dict, []⟩ updates).lost⟩ := by
  induction updates generalizing dict lost with
  | nil => simp [run]
  | cons update updates ih =>
      rw [run_cons, run_cons]
      cases cap with
      | none => exact ih _ _
      | some limit =>
          simp only [change, settle, List.nil_append]
          rw [ih, ih _ ((update dict).victims limit weight), List.append_assoc]

theorem Settled.sublist {dict smaller : OrderedDict κ ν} (settled : Settled cap weight dict)
    (part : smaller.entries.Sublist dict.entries) : Settled cap weight smaller := by
  intro limit isCap
  rcases settled limit isCap with light | few
  · exact Or.inl (((part.map weight).sum_le_sum fun _ _ => Nat.zero_le _).trans light)
  · exact Or.inr (part.length_le.trans few)

section Following

variable [DecidableEq κ]

/-- The dictionary holds what the map holds, or it has lost the key, and the map holds every
key that was lost. -/
structure Lagging (cache : LruCache κ ν) (space : κ → Option ν) : Prop where
  here : ∀ key, cache.dict.get? key = space key ∨ key ∈ cache.lost ∧ cache.dict.get? key = none
  owed : ∀ key ∈ cache.lost, space key ≠ none

variable {space after : κ → Option ν}

theorem lags_refl {dict : OrderedDict κ ν} (same : ∀ key, dict.get? key = space key) :
    Lagging ⟨dict, []⟩ space :=
  ⟨fun key => Or.inl (same key), fun _ member => nomatch member⟩

/-- Each key is left alone on both sides, or ends up the same on both. -/
def Alike (update : OrderedDict κ ν → OrderedDict κ ν) (dict : OrderedDict κ ν)
    (space after : κ → Option ν) : Prop :=
  ∀ key, (update dict).get? key = after key ∨
    (update dict).get? key = dict.get? key ∧ after key = space key

/-- The map stays ahead when it is changed alike and keeps what was lost. -/
theorem Lagging.change (lags : Lagging cache space) (alike : Alike update cache.dict space after)
    (keeps : ∀ key ∈ cache.lost, after key ≠ none) :
    Lagging (change cap weight cache update) after := by
  have before (key : κ) : (update cache.dict).get? key = after key ∨
      key ∈ cache.lost ∧ (update cache.dict).get? key = none := by
    rcases alike key with same | ⟨left, leftThere⟩
    · exact Or.inl same
    · rw [left, leftThere]
      exact lags.here key
  cases cap with
  | none => exact ⟨before, keeps⟩
  | some limit =>
      constructor
      · intro key
        simp only [LruCache.change, settle]
        rw [OrderedDict.get?_trim]
        split_ifs with leaves
        · exact Or.inr ⟨List.mem_append_right _ leaves, rfl⟩
        · exact (before key).imp_right fun gone => ⟨List.mem_append_left _ gone.1, gone.2⟩
      · intro key isLost
        rcases List.mem_append.mp isLost with earlier | leaves
        · exact keeps key earlier
        · have present := OrderedDict.get?_isSome_iff.mpr (OrderedDict.mem_keys_of_mem_victims leaves)
          rcases before key with same | ⟨-, gone⟩
          · rw [← same]
            exact Option.isSome_iff_ne_none.mp present
          · rw [gone] at present
            cases present

/-- Removing some keys from the map makes it agree with the dictionary, through any view of
the values, exactly when the dictionary holds none of these keys and they include all that
it has lost for good. -/
theorem Lagging.agree_iff {μ : Type*} (lags : Lagging cache space) (told : List κ) (view : ν → μ) :
    (∀ key, (cache.dict.get? key).map view =
        if key ∈ told then none else (space key).map view) ↔
      (∀ key ∈ told, cache.dict.get? key = none) ∧
        ∀ key ∈ cache.lost, cache.dict.get? key = none → key ∈ told := by
  constructor
  · intro agree
    constructor
    · intro key isTold
      have same := agree key
      rw [if_pos isTold] at same
      exact Option.map_eq_none_iff.mp same
    · intro key isLost gone
      by_contra notTold
      have same := agree key
      rw [if_neg notTold, gone] at same
      exact lags.owed key isLost (Option.map_eq_none_iff.mp same.symm)
  · rintro ⟨absent, complete⟩ key
    split_ifs with isTold
    · rw [absent key isTold, Option.map_none]
    · rcases lags.here key with same | ⟨isLost, gone⟩
      · rw [same]
      · exact absurd (complete key isLost gone) isTold

end Following

end LruCache
