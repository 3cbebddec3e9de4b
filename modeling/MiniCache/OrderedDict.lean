import Mathlib.Data.List.Nodup
import Mathlib.Data.List.Perm.Basic
import Mathlib.Tactic.SplitIfs

/-!
# Insertion-ordered dictionaries

The Python `OrderedDict`: a finite map whose keys keep the order in which they
were first inserted or last moved to the end.  The order is a list of entries
with pairwise distinct keys, carried with its proof.
-/

/-- A finite map with an order on its keys, oldest first. -/
@[ext]
structure OrderedDict (κ ν : Type*) where
  entries : List (κ × ν)
  nodupKeys : (entries.map Prod.fst).Nodup

namespace OrderedDict

variable {κ ν : Type*}

instance [DecidableEq κ] [DecidableEq ν] : DecidableEq (OrderedDict κ ν) :=
  fun first second =>
    decidable_of_iff (first.entries = second.entries) OrderedDict.ext_iff.symm

def empty : OrderedDict κ ν := ⟨[], List.nodup_nil⟩

def keys (dict : OrderedDict κ ν) : List κ := dict.entries.map Prod.fst

def size (dict : OrderedDict κ ν) : Nat := dict.entries.length

/-- The oldest entry. -/
def first? (dict : OrderedDict κ ν) : Option (κ × ν) := dict.entries.head?

theorem nodup_keys (dict : OrderedDict κ ν) : dict.keys.Nodup :=
  dict.nodupKeys

theorem mem_keys_of_mem {dict : OrderedDict κ ν} {key : κ} {value : ν}
    (member : (key, value) ∈ dict.entries) : key ∈ dict.keys :=
  List.mem_map_of_mem (f := Prod.fst) member

/-- A key determines its entry. -/
theorem value_unique {dict : OrderedDict κ ν} {key : κ} {first second : ν}
    (firstMem : (key, first) ∈ dict.entries)
    (secondMem : (key, second) ∈ dict.entries) : first = second :=
  congrArg Prod.snd
    (List.inj_on_of_nodup_map dict.nodupKeys firstMem secondMem rfl)

/-- Keep the entries that satisfy a test, in order. -/
def filterEntries (keep : κ × ν → Bool) (dict : OrderedDict κ ν) :
    OrderedDict κ ν where
  entries := dict.entries.filter keep
  nodupKeys := dict.nodupKeys.sublist (List.filter_sublist.map _)

section Lookup

variable [DecidableEq κ]

def get? (dict : OrderedDict κ ν) (key : κ) : Option ν :=
  (dict.entries.find? fun entry => entry.1 = key).map Prod.snd

/-- Remove a key, if it is there. -/
def pop (dict : OrderedDict κ ν) (key : κ) : OrderedDict κ ν :=
  dict.filterEntries fun entry => entry.1 ≠ key

/-- Overwrite the value of a key in place, or append a new key. -/
def setItem (dict : OrderedDict κ ν) (key : κ) (value : ν) :
    OrderedDict κ ν where
  entries :=
    if key ∈ dict.keys then
      dict.entries.map fun entry => if entry.1 = key then (key, value) else entry
    else
      dict.entries ++ [(key, value)]
  nodupKeys := by
    split_ifs with present
    · have sameKeys : (dict.entries.map fun entry =>
          if entry.1 = key then (key, value) else entry).map Prod.fst =
            dict.keys := by
        rw [List.map_map]
        apply List.map_congr_left
        intro entry _
        by_cases atKey : entry.1 = key <;> simp [atKey]
      rw [sameKeys]
      exact dict.nodupKeys
    · rw [List.map_append, List.nodup_append]
      refine ⟨dict.nodupKeys, by simp, ?_⟩
      rintro other otherMem appended appendedMem rfl
      have isKey : other = key := by simpa using appendedMem
      exact present (isKey ▸ otherMem)

/-- Make a present key the newest one. -/
def moveToEnd (dict : OrderedDict κ ν) (key : κ) : OrderedDict κ ν :=
  match dict.get? key with
  | none => dict
  | some value => (dict.pop key).setItem key value

/-- Store a value as the newest one. -/
def put (dict : OrderedDict κ ν) (key : κ) (value : ν) : OrderedDict κ ν :=
  (dict.setItem key value).moveToEnd key

theorem get?_eq_some_iff {dict : OrderedDict κ ν} {key : κ} {value : ν} :
    dict.get? key = some value ↔ (key, value) ∈ dict.entries := by
  unfold get?
  constructor
  · intro found
    obtain ⟨entry, entryFound, rfl⟩ := Option.map_eq_some_iff.mp found
    have atKey : entry.1 = key := by
      simpa using List.find?_some entryFound
    rw [← atKey]
    exact List.mem_of_find?_eq_some entryFound
  · intro member
    cases found : dict.entries.find? fun entry => entry.1 = key with
    | none => simpa using List.find?_eq_none.mp found _ member
    | some entry =>
        have atKey : entry.1 = key := by
          simpa using List.find?_some found
        have entryMem : (key, entry.2) ∈ dict.entries := by
          rw [← atKey]
          exact List.mem_of_find?_eq_some found
        simp [value_unique entryMem member]

theorem get?_eq_none_iff {dict : OrderedDict κ ν} {key : κ} :
    dict.get? key = none ↔ key ∉ dict.keys := by
  simp only [get?, keys, Option.map_eq_none_iff, List.find?_eq_none,
    decide_eq_true_eq, List.mem_map, not_exists, not_and]

theorem get?_isSome_iff {dict : OrderedDict κ ν} {key : κ} :
    (dict.get? key).isSome ↔ key ∈ dict.keys := by
  rw [← not_iff_not, ← get?_eq_none_iff]
  simp

@[simp]
theorem get?_empty (key : κ) : (empty : OrderedDict κ ν).get? key = none :=
  rfl

theorem mem_pop_iff {dict : OrderedDict κ ν} {key : κ} {entry : κ × ν} :
    entry ∈ (dict.pop key).entries ↔ entry ∈ dict.entries ∧ entry.1 ≠ key := by
  simp [pop, filterEntries]

theorem get?_pop (dict : OrderedDict κ ν) (key other : κ) :
    (dict.pop key).get? other = if other = key then none else dict.get? other := by
  apply Option.ext
  intro value
  rw [get?_eq_some_iff, mem_pop_iff]
  split_ifs with same <;> simp [same, get?_eq_some_iff]

@[simp]
theorem get?_pop_self (dict : OrderedDict κ ν) (key : κ) :
    (dict.pop key).get? key = none := by
  simp [get?_pop]

theorem key_not_mem_pop (dict : OrderedDict κ ν) (key : κ) :
    key ∉ (dict.pop key).keys :=
  get?_eq_none_iff.mp (get?_pop_self dict key)

theorem pop_of_not_mem {dict : OrderedDict κ ν} {key : κ}
    (absent : key ∉ dict.keys) : dict.pop key = dict := by
  apply OrderedDict.ext
  apply List.filter_eq_self.mpr
  intro entry member
  have keyNe : entry.1 ≠ key := by
    rintro rfl
    exact absent (List.mem_map_of_mem member)
  simpa using keyNe

theorem setItem_of_not_mem {dict : OrderedDict κ ν} {key : κ}
    (absent : key ∉ dict.keys) (value : ν) :
    (dict.setItem key value).entries = dict.entries ++ [(key, value)] := by
  simp [setItem, absent]

theorem setItem_of_mem {dict : OrderedDict κ ν} {key : κ}
    (present : key ∈ dict.keys) (value : ν) :
    (dict.setItem key value).entries = dict.entries.map fun entry =>
      if entry.1 = key then (key, value) else entry := by
  simp [setItem, present]

/-- Overwriting keeps the other entries, up to order. -/
theorem setItem_perm (dict : OrderedDict κ ν) (key : κ) (value : ν) :
    (dict.setItem key value).entries.Perm ((key, value) :: (dict.pop key).entries) := by
  by_cases present : key ∈ dict.keys
  · have replaced (entries : List (κ × ν))
        (nodup : (entries.map Prod.fst).Nodup)
        (member : key ∈ entries.map Prod.fst) :
        (entries.map fun entry =>
            if entry.1 = key then (key, value) else entry).Perm
          ((key, value) :: entries.filter fun entry => entry.1 ≠ key) := by
      induction entries with
      | nil => simp at member
      | cons entry rest ih =>
          obtain ⟨notMem, restNodup⟩ := List.nodup_cons.mp nodup
          by_cases atKey : entry.1 = key
          · have restOther : ∀ other ∈ rest, other.1 ≠ key := by
              intro other otherMem same
              exact notMem (by
                rw [atKey, ← same]
                exact List.mem_map_of_mem otherMem)
            have mapEq : (rest.map fun entry =>
                if entry.1 = key then (key, value) else entry) = rest := by
              rw [List.map_congr_left (g := id) fun other otherMem => by
                simp [restOther other otherMem]]
              simp
            have filterEq : (rest.filter fun entry => entry.1 ≠ key) = rest :=
              List.filter_eq_self.mpr fun other otherMem => by
                simpa using restOther other otherMem
            simp only [List.map_cons, atKey, ite_true, mapEq]
            rw [List.filter_cons_of_neg (by simp [atKey]), filterEq]
          · have restMem : key ∈ rest.map Prod.fst := by
              simpa [Ne.symm atKey] using member
            simp only [List.map_cons, atKey, ite_false]
            rw [List.filter_cons_of_pos (by simp [atKey])]
            exact ((ih restNodup restMem).cons entry).trans (List.Perm.swap _ _ _)
    simpa [setItem, present, pop, filterEntries] using
      replaced dict.entries dict.nodupKeys present
  · rw [setItem_of_not_mem present, pop_of_not_mem present]
    exact List.perm_append_singleton _ _

theorem mem_setItem_iff {dict : OrderedDict κ ν} {key : κ} {value : ν}
    {entry : κ × ν} :
    entry ∈ (dict.setItem key value).entries ↔
      entry = (key, value) ∨ (entry ∈ dict.entries ∧ entry.1 ≠ key) := by
  rw [(setItem_perm dict key value).mem_iff, List.mem_cons, mem_pop_iff]

theorem get?_setItem (dict : OrderedDict κ ν) (key other : κ) (value : ν) :
    (dict.setItem key value).get? other =
      if other = key then some value else dict.get? other := by
  apply Option.ext
  intro found
  rw [get?_eq_some_iff, mem_setItem_iff]
  split_ifs with same
  · simp [same, eq_comm]
  · simp [same, get?_eq_some_iff]

/-- A present key and the entries without it make up the dictionary. -/
theorem perm_cons_pop {dict : OrderedDict κ ν} {key : κ} {value : ν}
    (present : dict.get? key = some value) :
    dict.entries.Perm ((key, value) :: (dict.pop key).entries) := by
  have sameEntries : (dict.setItem key value).entries = dict.entries := by
    have member := get?_eq_some_iff.mp present
    rw [setItem_of_mem (mem_keys_of_mem member),
      List.map_congr_left (g := id), List.map_id]
    rintro ⟨other, otherValue⟩ otherMem
    by_cases same : other = key
    · subst other
      simp [value_unique member otherMem]
    · simp [same]
  rw [← sameEntries]
  exact setItem_perm dict key value

theorem size_pop (dict : OrderedDict κ ν) (key : κ) :
    (if (dict.get? key).isSome then 1 else 0) + (dict.pop key).size = dict.size := by
  cases present : dict.get? key with
  | none => simp [pop_of_not_mem (get?_eq_none_iff.mp present)]
  | some value =>
      have counted := (perm_cons_pop present).length_eq
      rw [List.length_cons] at counted
      simp [size, counted, Nat.add_comm]

theorem moveToEnd_entries {dict : OrderedDict κ ν} {key : κ} {value : ν}
    (present : dict.get? key = some value) :
    (dict.moveToEnd key).entries = (dict.pop key).entries ++ [(key, value)] := by
  simp only [moveToEnd, present]
  exact setItem_of_not_mem (key_not_mem_pop dict key) value

theorem moveToEnd_perm (dict : OrderedDict κ ν) (key : κ) :
    (dict.moveToEnd key).entries.Perm dict.entries := by
  cases present : dict.get? key with
  | none => simp [moveToEnd, present]
  | some value =>
      rw [moveToEnd_entries present]
      exact (List.perm_append_singleton _ _).trans (perm_cons_pop present).symm

@[simp]
theorem get?_moveToEnd (dict : OrderedDict κ ν) (key other : κ) :
    (dict.moveToEnd key).get? other = dict.get? other := by
  apply Option.ext
  intro value
  rw [get?_eq_some_iff, get?_eq_some_iff, (moveToEnd_perm dict key).mem_iff]

theorem pop_moveToEnd (dict : OrderedDict κ ν) (key : κ) :
    (dict.moveToEnd key).pop key = dict.pop key := by
  cases present : dict.get? key with
  | none => simp [moveToEnd, present]
  | some value =>
      apply OrderedDict.ext
      simp only [pop, filterEntries]
      rw [moveToEnd_entries present, List.filter_append]
      simp [pop, filterEntries]

/-- Storing a key and moving it to the end appends it to the entries without
it. -/
theorem moveToEnd_setItem_entries (dict : OrderedDict κ ν) (key : κ)
    (value : ν) :
    ((dict.setItem key value).moveToEnd key).entries =
      (dict.pop key).entries ++ [(key, value)] := by
  have stored : (dict.setItem key value).get? key = some value := by
    simp [get?_setItem]
  rw [moveToEnd_entries stored]
  congr 1
  by_cases present : key ∈ dict.keys
  · have filtered (entries : List (κ × ν)) :
        ((entries.map fun entry =>
            if entry.1 = key then (key, value) else entry).filter
              fun entry => entry.1 ≠ key) =
          entries.filter fun entry => entry.1 ≠ key := by
      induction entries with
      | nil => rfl
      | cons entry rest ih =>
          by_cases atKey : entry.1 = key <;>
            simpa [atKey] using ih
    simpa [pop, filterEntries, setItem, present] using filtered dict.entries
  · simp [pop, filterEntries, setItem_of_not_mem present]

theorem get?_put (dict : OrderedDict κ ν) (key other : κ) (value : ν) :
    (dict.put key value).get? other =
      if other = key then some value else dict.get? other := by
  rw [put, get?_moveToEnd, get?_setItem]

/-- Overwriting the newest entry stores a new one. -/
theorem setItem_moveToEnd {dict : OrderedDict κ ν} {key : κ} {old : ν}
    (present : dict.get? key = some old) (value : ν) :
    (dict.moveToEnd key).setItem key value = dict.put key value := by
  have moved : key ∈ (dict.moveToEnd key).keys := by
    rw [← get?_isSome_iff, get?_moveToEnd, present]
    rfl
  apply OrderedDict.ext
  rw [put, moveToEnd_setItem_entries, setItem_of_mem moved,
    moveToEnd_entries present, List.map_append]
  congr 1
  · rw [List.map_congr_left (g := id), List.map_id]
    intro entry member
    simp [(mem_pop_iff.mp member).2]
  · simp

section FilterMap

variable {μ : Type*} {view : κ → ν → Option μ}

/-- The entries that have an image, in order, with their images. -/
def filterMap (view : κ → ν → Option μ) (dict : OrderedDict κ ν) :
    OrderedDict κ μ where
  entries := dict.entries.filterMap fun entry =>
    (view entry.1 entry.2).map fun image => (entry.1, image)
  nodupKeys := by
    have keysSublist (entries : List (κ × ν)) :
        ((entries.filterMap fun entry =>
            (view entry.1 entry.2).map fun image => (entry.1, image)).map
              Prod.fst).Sublist (entries.map Prod.fst) := by
      induction entries with
      | nil => exact List.Sublist.slnil
      | cons entry rest ih =>
          cases image : view entry.1 entry.2 with
          | none => simpa [image] using ih.cons entry.1
          | some image' => simpa [image] using ih.cons_cons entry.1
    exact dict.nodupKeys.sublist (keysSublist dict.entries)

omit [DecidableEq κ] in
theorem mem_filterMap_iff {dict : OrderedDict κ ν} {key : κ} {image : μ} :
    (key, image) ∈ (dict.filterMap view).entries ↔
      ∃ value, (key, value) ∈ dict.entries ∧ view key value = some image := by
  simp only [filterMap, List.mem_filterMap, Option.map_eq_some_iff]
  constructor
  · rintro ⟨⟨_, value⟩, member, _, viewed, same⟩
    obtain ⟨rfl, rfl⟩ := Prod.mk.inj same
    exact ⟨value, member, viewed⟩
  · rintro ⟨value, member, viewed⟩
    exact ⟨(key, value), member, image, viewed, rfl⟩

theorem get?_filterMap (dict : OrderedDict κ ν) (key : κ) :
    (dict.filterMap view).get? key = (dict.get? key).bind (view key) := by
  apply Option.ext
  intro image
  rw [get?_eq_some_iff, mem_filterMap_iff]
  simp [Option.bind_eq_some_iff, get?_eq_some_iff]

theorem filterMap_pop (dict : OrderedDict κ ν) (key : κ) :
    (dict.pop key).filterMap view = (dict.filterMap view).pop key := by
  apply OrderedDict.ext
  have commutes (entries : List (κ × ν)) :
      (entries.filter fun entry => entry.1 ≠ key).filterMap (fun entry =>
          (view entry.1 entry.2).map fun image => (entry.1, image)) =
        (entries.filterMap fun entry =>
          (view entry.1 entry.2).map fun image => (entry.1, image)).filter
            fun entry => entry.1 ≠ key := by
    induction entries with
    | nil => rfl
    | cons entry rest ih =>
        cases image : view entry.1 entry.2 <;>
          by_cases atKey : entry.1 = key <;>
            simp_all
  exact commutes dict.entries

/-- An entry without an image leaves no trace. -/
theorem filterMap_pop_of_view_none {dict : OrderedDict κ ν} {key : κ} {value : ν}
    (present : dict.get? key = some value) (hidden : view key value = none) :
    (dict.pop key).filterMap view = dict.filterMap view := by
  rw [filterMap_pop]
  apply pop_of_not_mem
  rw [← get?_eq_none_iff, get?_filterMap, present]
  exact hidden

/-- Appending a value at the end, in terms of images. -/
theorem filterMap_put (dict : OrderedDict κ ν) (key : κ) {value : ν} {image : μ}
    (viewed : view key value = some image) :
    ((dict.setItem key value).moveToEnd key).filterMap view =
      ((dict.filterMap view).setItem key image).moveToEnd key := by
  apply OrderedDict.ext
  rw [moveToEnd_setItem_entries, ← filterMap_pop]
  simp [filterMap, moveToEnd_setItem_entries, List.filterMap_append, viewed]

theorem filterMap_put_of_view_none (dict : OrderedDict κ ν) (key : κ) {value : ν}
    (hidden : view key value = none) :
    ((dict.setItem key value).moveToEnd key).filterMap view =
      (dict.filterMap view).pop key := by
  apply OrderedDict.ext
  rw [← filterMap_pop]
  simp [filterMap, moveToEnd_setItem_entries, List.filterMap_append, hidden]

theorem filterMap_moveToEnd {dict : OrderedDict κ ν} {key : κ} {value : ν}
    {image : μ} (present : dict.get? key = some value)
    (viewed : view key value = some image) :
    (dict.moveToEnd key).filterMap view = (dict.filterMap view).moveToEnd key := by
  have presentImage : (dict.filterMap view).get? key = some image := by
    rw [get?_filterMap, present]
    exact viewed
  apply OrderedDict.ext
  rw [moveToEnd_entries presentImage, ← filterMap_pop]
  simp [filterMap, moveToEnd_entries present, List.filterMap_append, viewed]

/-- Overwriting a value in place, in terms of images. -/
theorem filterMap_setItem {dict : OrderedDict κ ν} {key : κ} {old value : ν}
    {oldImage image : μ} (present : dict.get? key = some old)
    (oldViewed : view key old = some oldImage)
    (viewed : view key value = some image) :
    (dict.setItem key value).filterMap view =
      (dict.filterMap view).setItem key image := by
  have member := get?_eq_some_iff.mp present
  have imageMember := mem_filterMap_iff.mpr ⟨old, member, oldViewed⟩
  apply OrderedDict.ext
  rw [setItem_of_mem (mem_keys_of_mem imageMember)]
  simp only [filterMap, setItem_of_mem (mem_keys_of_mem member),
    List.filterMap_map, List.map_filterMap]
  apply List.filterMap_congr
  rintro ⟨other, otherValue⟩ otherMember
  by_cases atKey : other = key
  · subst other
    simp [value_unique otherMember member, oldViewed, viewed]
  · cases otherImage : view other otherValue <;> simp [atKey, otherImage]

theorem filterMap_setItem_of_view_none {dict : OrderedDict κ ν} {key : κ}
    {old value : ν} (present : dict.get? key = some old)
    (hidden : view key value = none) :
    (dict.setItem key value).filterMap view = (dict.filterMap view).pop key := by
  have member := get?_eq_some_iff.mp present
  apply OrderedDict.ext
  rw [← filterMap_pop]
  simp only [filterMap, setItem_of_mem (mem_keys_of_mem member), pop,
    filterEntries, List.filterMap_map, List.filterMap_filter]
  apply List.filterMap_congr
  rintro ⟨other, otherValue⟩ otherMember
  by_cases atKey : other = key
  · subst other
    simp [hidden]
  · simp [atKey]

omit [DecidableEq κ] in
theorem filterMap_eq_self {view : κ → ν → Option ν} {dict : OrderedDict κ ν}
    (same : ∀ key value, (key, value) ∈ dict.entries → view key value = some value) :
    dict.filterMap view = dict := by
  apply OrderedDict.ext
  simp only [filterMap]
  conv_rhs => rw [← @List.filterMap_some _ dict.entries]
  apply List.filterMap_congr
  rintro ⟨key, value⟩ member
  simp [same key value member]

omit [DecidableEq κ] in
theorem filterMap_filterMap {μ' : Type*} {view' : κ → μ → Option μ'}
    (dict : OrderedDict κ ν) :
    (dict.filterMap view).filterMap view' =
      dict.filterMap fun key value => (view key value).bind (view' key) := by
  apply OrderedDict.ext
  simp only [filterMap, List.filterMap_filterMap]
  apply List.filterMap_congr
  rintro ⟨key, value⟩ _
  cases image : view key value <;> simp

end FilterMap

end Lookup

end OrderedDict
