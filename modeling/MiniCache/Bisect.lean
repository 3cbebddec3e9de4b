import Mathlib.Data.List.Sort
import Mathlib.Data.List.TakeWhile
import Mathlib.Data.Prod.Lex
import Mathlib.Order.Bounds.Basic

/-!
# Bisection and the next point clockwise

The Python module `bisect` on sorted lists, and the point that comes first clockwise from a
position on a circle.  The points of the circle are a set in a linear order; which of them
comes first is a least element in the order that the position turns to its front.
-/

namespace Bisect

variable {α : Type*}

/-- The loop of a bisection for the first position at which a test fails. -/
def loop (before : α → Bool) (items : List α) (low high : Nat) : Nat :=
  if low < high then
    match items[(low + high) / 2]? with
    | none => low
    | some item =>
        if before item then loop before items ((low + high) / 2 + 1) high
        else loop before items low ((low + high) / 2)
  else low
termination_by high - low

/-- The loop finds the border between the items that pass the test and those that fail. -/
theorem loop_append {before : α → Bool} {front back : List α}
    (passes : ∀ item ∈ front, before item = true) (fails : ∀ item ∈ back, before item = false)
    {low high : Nat} (lower : low ≤ front.length) (upper : front.length ≤ high)
    (inside : high ≤ (front ++ back).length) :
    loop before (front ++ back) low high = front.length := by
  have inFront {position : Nat} (here : position < front.length) :
      (front ++ back)[position]? = some front[position] := by
    rw [List.getElem?_append_left here, List.getElem?_eq_getElem here]
  have inBack {position : Nat} {item : α} (beyond : front.length ≤ position)
      (found : (front ++ back)[position]? = some item) : item ∈ back := by
    rw [List.getElem?_append_right beyond] at found
    exact List.mem_of_getElem? found
  fun_induction loop before (front ++ back) low high with
  | case1 low high open_ missing =>
      have within : (low + high) / 2 < (front ++ back).length := by omega
      rw [List.getElem?_eq_getElem within] at missing
      cases missing
  | case2 low high open_ item found pass ih =>
      refine ih ?_ upper inside
      by_contra beyond
      have fail := fails item (inBack (by omega) found)
      rw [pass] at fail
      cases fail
  | case3 low high open_ item found fail ih =>
      refine ih lower ?_ (by omega)
      by_contra before_
      have here : (low + high) / 2 < front.length := by omega
      rw [inFront here] at found
      cases found
      exact fail (passes _ (List.getElem_mem here))
  | case4 low high closed => omega

theorem insertIdx_length (front back : List α) (x : α) :
    (front ++ back).insertIdx front.length x = front ++ x :: back := by
  induction front with
  | nil => rfl
  | cons first rest ih => exact congrArg (first :: ·) ih

variable [LinearOrder α]

def bisectLeft (items : List α) (x : α) : Nat := loop (· < x) items 0 items.length

def bisectRight (items : List α) (x : α) : Nat := loop (fun item => ¬ x < item) items 0 items.length

def insort (items : List α) (x : α) : List α := items.insertIdx (bisectRight items x) x

/-- Delete an item that is found by bisection. -/
def discard (items : List α) (x : α) : List α :=
  if items[bisectLeft items x]? = some x then items.eraseIdx (bisectLeft items x) else items

variable {items : List α}

/-- A bisection of a sorted list, where smaller items pass the test sooner. -/
theorem loop_split (sorted : items.Pairwise (· ≤ ·)) {before : α → Bool}
    (downward : ∀ x y, x ≤ y → before y = true → before x = true) :
    ∃ front back, items = front ++ back ∧ (∀ item ∈ front, before item = true) ∧
      (∀ item ∈ back, before item = false) ∧ loop before items 0 items.length = front.length := by
  have split : items.takeWhile before ++ items.dropWhile before = items :=
    List.takeWhile_append_dropWhile
  have passes : ∀ item ∈ items.takeWhile before, before item = true :=
    fun item member => List.mem_takeWhile_imp member
  have fails : ∀ item ∈ items.dropWhile before, before item = false := by
    have ordered : (items.dropWhile before).Pairwise (· ≤ ·) :=
      sorted.sublist (List.dropWhile_sublist _)
    intro item member
    rw [Bool.eq_false_iff]
    intro pass
    cases back : items.dropWhile before with
    | nil =>
        rw [back] at member
        cases member
    | cons first rest =>
        have fail : before first = false := by
          have := List.head_dropWhile_not before (back ▸ List.cons_ne_nil first rest)
          simpa [back] using this
        rw [back] at ordered member
        have le : first ≤ item := by
          rcases List.mem_cons.mp member with rfl | later
          · exact le_rfl
          · exact List.rel_of_pairwise_cons ordered later
        rw [downward first item le pass] at fail
        cases fail
  refine ⟨items.takeWhile before, items.dropWhile before, split.symm, passes, fails, ?_⟩
  have found := loop_append passes fails (Nat.zero_le _)
    (List.length_append ▸ Nat.le_add_right _ _) (Nat.le_refl _)
  rwa [split] at found

theorem bisectRight_split (sorted : items.Pairwise (· ≤ ·)) (x : α) :
    ∃ front back, items = front ++ back ∧ (∀ item ∈ front, item ≤ x) ∧
      (∀ item ∈ back, x < item) ∧ bisectRight items x = front.length := by
  obtain ⟨front, back, split, passes, fails, found⟩ := @loop_split α _ items sorted
    (fun item => ¬ x < item) fun y z le => by simpa using le.trans
  exact ⟨front, back, split, by simpa using passes, by simpa using fails, found⟩

theorem bisectLeft_split (sorted : items.Pairwise (· ≤ ·)) (x : α) :
    ∃ front back, items = front ++ back ∧ (∀ item ∈ front, item < x) ∧
      (∀ item ∈ back, x ≤ item) ∧ bisectLeft items x = front.length := by
  obtain ⟨front, back, split, passes, fails, found⟩ := @loop_split α _ items sorted
    (· < x) fun y z le => by simpa using le.trans_lt
  exact ⟨front, back, split, by simpa using passes, by simpa using fails, found⟩

section Strict

variable (sorted : items.Pairwise (· < ·)) (x : α)

include sorted

theorem insort_perm : (insort items x).Perm (x :: items) := by
  obtain ⟨front, back, rfl, -, -, found⟩ := bisectRight_split (sorted.imp le_of_lt) x
  refine List.perm_insertIdx _ _ ?_
  rw [found, List.length_append]
  exact Nat.le_add_right _ _

/-- A new item keeps the list strictly sorted. -/
theorem insort_pairwise (new : x ∉ items) : (insort items x).Pairwise (· < ·) := by
  obtain ⟨front, back, rfl, below, above, found⟩ := bisectRight_split (sorted.imp le_of_lt) x
  have strictly : ∀ item ∈ front, item < x := by
    intro item member
    refine lt_of_le_of_ne (below item member) ?_
    rintro rfl
    exact new (List.mem_append_left back member)
  have inserted : insort (front ++ back) x = front ++ x :: back := by
    rw [insort, found, insertIdx_length]
  rw [List.pairwise_append] at sorted
  rw [inserted, List.pairwise_append]
  refine ⟨sorted.1, List.pairwise_cons.mpr ⟨above, sorted.2.1⟩, ?_⟩
  intro item member other otherMem
  rcases List.mem_cons.mp otherMem with rfl | later
  · exact strictly item member
  · exact sorted.2.2 item member other later

theorem discard_eq_erase : discard items x = items.erase x := by
  obtain ⟨front, back, rfl, below, above, found⟩ := bisectLeft_split (sorted.imp le_of_lt) x
  have absent : x ∉ front := fun member => lt_irrefl x (below x member)
  rw [discard, found, List.erase_append_right _ absent,
    List.getElem?_append_right (Nat.le_refl _), Nat.sub_self,
    List.eraseIdx_append_of_length_le (Nat.le_refl _), Nat.sub_self]
  cases back with
  | nil => simp
  | cons first rest =>
      by_cases here : first = x
      · subst here
        simp
      · have later : x ∉ rest := by
          intro member
          have less := List.rel_of_pairwise_cons (List.pairwise_append.mp sorted).2.1 member
          exact absurd (above first (List.mem_cons_self ..)) (not_le_of_gt less)
        simp [here, List.erase_of_not_mem, later]

end Strict

end Bisect

namespace Clockwise

variable {α : Type*} [LinearOrder α] {points others : Set α} {start point other : α}

/-- The order of the points met clockwise from a start, which is met last itself. -/
def rank (start point : α) : Bool ×ₗ α := toLex (decide (point ≤ start), point)

/-- The point of a set that is met first. -/
def IsNext (points : Set α) (start point : α) : Prop :=
  point ∈ points ∧ ∀ other ∈ points, rank start point ≤ rank start other

theorem rank_of_lt (beyond : start < point) : rank start point = toLex (false, point) := by
  rw [rank, decide_eq_false (not_le_of_gt beyond)]

theorem rank_of_le (behind : point ≤ start) : rank start point = toLex (true, point) := by
  rw [rank, decide_eq_true behind]

theorem IsNext.unique (first : IsNext points start point) (second : IsNext points start other) :
    point = other := by
  have same := le_antisymm (first.2 other second.1) (second.2 point first.1)
  exact congrArg Prod.snd (toLex_inj.mp same)

theorem IsNext.of_subset (next : IsNext points start point) (subset : others ⊆ points)
    (member : point ∈ others) : IsNext others start point :=
  ⟨member, fun other otherMem => next.2 other (subset otherMem)⟩

/-- The next point of a union is new or the next one of the first set. -/
theorem IsNext.of_union (next : IsNext (points ∪ others) start point) :
    IsNext points start point ∨ point ∈ others := by
  rcases next.1 with old | new
  · exact Or.inl (next.of_subset Set.subset_union_left old)
  · exact Or.inr new

/-- The item after the position of the start, or the first one behind the end of the list. -/
theorem isNext_bisectRight {items : List α} (sorted : items.Pairwise (· < ·))
    (start : α) (someItem : items ≠ []) :
    ∃ point, items[if Bisect.bisectRight items start = items.length then 0
        else Bisect.bisectRight items start]? = some point ∧
      IsNext {item | item ∈ items} start point := by
  obtain ⟨front, back, rfl, below, above, found⟩ :=
    Bisect.bisectRight_split (sorted.imp le_of_lt) start
  rw [found]
  cases back with
  | nil =>
      cases front with
      | nil => exact absurd rfl someItem
      | cons first rest =>
          refine ⟨first, by simp, by simp, ?_⟩
          intro item member
          rw [Set.mem_ofPred_eq, List.append_nil] at member
          rw [rank_of_le (below first (List.mem_cons_self ..)), rank_of_le (below item member)]
          rw [List.append_nil] at sorted
          refine Prod.Lex.toLex_le_toLex.mpr (Or.inr ⟨rfl, ?_⟩)
          rcases List.mem_cons.mp member with rfl | later
          · exact le_rfl
          · exact (List.rel_of_pairwise_cons sorted later).le
  | cons first rest =>
      refine ⟨first, by simp, by simp, ?_⟩
      intro item member
      rw [rank_of_lt (above first (List.mem_cons_self ..))]
      rcases List.mem_append.mp member with inFront | inBack
      · rw [rank_of_le (below item inFront)]
        exact Prod.Lex.toLex_le_toLex.mpr (Or.inl (Bool.false_lt_true))
      · rw [rank_of_lt (above item inBack)]
        refine Prod.Lex.toLex_le_toLex.mpr (Or.inr ⟨rfl, ?_⟩)
        rcases List.mem_cons.mp inBack with rfl | later
        · exact le_rfl
        · exact (List.rel_of_pairwise_cons (List.pairwise_append.mp sorted).2.1 later).le

end Clockwise
