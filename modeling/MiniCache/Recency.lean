import Mathlib.Algebra.BigOperators.Group.List.Basic
import Mathlib.Algebra.GroupWithZero.Nat
import Mathlib.Data.List.Infix
import Mathlib.Data.Nat.Find
import Mathlib.Order.Bounds.Basic
import Mathlib.Tactic.SplitIfs

/-!
# Eviction in order of recency

A queue of weighted items, oldest first, loses items from the front until the rest
fits a limit or one item is left.  The items lost are the fewest possible.  A queue
whose items move to the end when they are touched stays in order of their last
touches.
-/

namespace Recency

variable {α : Type*}

section Trimming

variable (limit : Nat) (weight : α → Nat)

/-- The items weigh no more than the limit, or there is at most one. -/
def Fits (queue : List α) : Prop := (queue.map weight).sum ≤ limit ∨ queue.length ≤ 1

instance : DecidablePred (Fits limit weight) := fun _ => inferInstanceAs (Decidable (_ ∨ _))

/-- The items that stay when the oldest ones leave. -/
def trim : List α → List α
  | [] => []
  | oldest :: rest => if Fits limit weight (oldest :: rest) then oldest :: rest else trim rest

/-- The items that leave, oldest first. -/
def victims : List α → List α
  | [] => []
  | oldest :: rest => if Fits limit weight (oldest :: rest) then [] else oldest :: victims rest

variable {limit weight} {queue : List α}

theorem trim_of_fits (fits : Fits limit weight queue) : trim limit weight queue = queue := by
  cases queue with
  | nil => rfl
  | cons oldest rest => rw [trim, if_pos fits]

theorem victims_of_fits (fits : Fits limit weight queue) : victims limit weight queue = [] := by
  cases queue with
  | nil => rfl
  | cons oldest rest => rw [victims, if_pos fits]

theorem victims_append_trim (queue : List α) :
    victims limit weight queue ++ trim limit weight queue = queue := by
  induction queue with
  | nil => rfl
  | cons oldest rest ih =>
      rw [victims, trim]
      split_ifs
      · rfl
      · rw [List.cons_append, ih]

theorem fits_trim (queue : List α) : Fits limit weight (trim limit weight queue) := by
  induction queue with
  | nil => exact Or.inr (Nat.zero_le 1)
  | cons oldest rest ih =>
      rw [trim]
      split_ifs with fits
      · exact fits
      · exact ih

theorem trim_eq_drop (queue : List α) :
    trim limit weight queue = queue.drop (victims limit weight queue).length := by
  have dropped := @List.drop_left _ (victims limit weight queue) (trim limit weight queue)
  rw [victims_append_trim] at dropped
  exact dropped.symm

theorem victims_eq_take (queue : List α) :
    victims limit weight queue = queue.take (victims limit weight queue).length := by
  have taken := @List.take_left _ (victims limit weight queue) (trim limit weight queue)
  rw [victims_append_trim] at taken
  exact taken.symm

theorem mem_of_mem_victims {item : α} (leaves : item ∈ victims limit weight queue) :
    item ∈ queue := by
  rw [← @victims_append_trim _ limit weight queue]
  exact List.mem_append_left _ leaves

/-- No fewer items could have left. -/
theorem isLeast_victims (queue : List α) :
    IsLeast {number | Fits limit weight (queue.drop number)}
      (victims limit weight queue).length := by
  constructor
  · have fits : Fits limit weight (trim limit weight queue) := fits_trim queue
    rwa [trim_eq_drop] at fits
  · intro number fits
    induction queue generalizing number with
    | nil => exact Nat.zero_le number
    | cons oldest rest ih =>
        rw [victims]
        split_ifs with whole
        · exact Nat.zero_le number
        · cases number with
          | zero => exact absurd fits whole
          | succ number => exact Nat.succ_le_succ (ih fits)

/-- The newest item never leaves. -/
theorem newest_mem_trim (older : List α) (newest : α) :
    newest ∈ trim limit weight (older ++ [newest]) := by
  induction older with
  | nil =>
      have single : Fits limit weight [newest] := Or.inr (Nat.le_refl 1)
      rw [List.nil_append, trim_of_fits single]
      exact List.mem_singleton_self newest
  | cons oldest rest ih =>
      rw [List.cons_append, trim]
      split_ifs
      · simp
      · exact ih

/-- So it is not among those that leave, whatever else was dropped before. -/
theorem newest_not_mem_victims {older : List α} {newest : α} (nodup : (older ++ [newest]).Nodup)
    (part : queue.Sublist (older ++ [newest])) : newest ∉ victims limit weight queue := by
  intro leaves
  have split := @victims_append_trim _ limit weight queue
  have distinct : (victims limit weight queue ++ trim limit weight queue).Nodup := by
    rw [split]
    exact nodup.sublist part
  have inQueue : newest ∈ queue := mem_of_mem_victims leaves
  obtain ⟨before, last, rfl, beforePart, lastPart⟩ := List.sublist_append_iff.mp part
  rcases List.sublist_singleton.mp lastPart with rfl | rfl
  · have notOlder := (List.nodup_append.mp nodup).2.2
    rw [List.append_nil] at inQueue
    exact notOlder newest (beforePart.subset inQueue) newest (List.mem_singleton_self newest) rfl
  · exact (List.nodup_append.mp distinct).2.2 newest leaves newest
      (newest_mem_trim before newest) rfl

end Trimming

section Touching

variable {touched : α → Nat} {queue : List α} {count : Nat}

/-- The items stand in order of their last touches. -/
def InOrder (touched : α → Nat) (queue : List α) : Prop :=
  queue.Pairwise fun older newer => touched older < touched newer

theorem InOrder.sublist {rest : List α} (inOrder : InOrder touched queue)
    (part : rest.Sublist queue) : InOrder touched rest :=
  List.Pairwise.sublist part inOrder

variable [DecidableEq α]

/-- Touch an item: it becomes the newest one. -/
def touch (item : α) (queue : List α) : List α := queue.filter (· ≠ item) ++ [item]

/-- An item that comes after older ones is one that was touched. -/
theorem sublist_touch {older : List α} {item : α} (nodup : (older ++ [item]).Nodup)
    (part : older.Sublist queue) : (older ++ [item]).Sublist (touch item queue) := by
  have others : older.filter (· ≠ item) = older := by
    refine List.filter_eq_self.mpr fun other member => ?_
    have different := (List.nodup_append.mp nodup).2.2 other member item
      (List.mem_singleton_self item)
    simpa using different
  rw [touch, ← others]
  exact (part.filter _).append_right [item]

theorem InOrder.touch (inOrder : InOrder touched queue) (bounded : ∀ item, touched item ≤ count)
    (item : α) : InOrder (Function.update touched item (count + 1)) (touch item queue) := by
  have others : ∀ other ∈ queue.filter (· ≠ item),
      Function.update touched item (count + 1) other = touched other := by
    intro other member
    exact Function.update_of_ne (by simpa using (List.mem_filter.mp member).2) _ _
  refine List.pairwise_append.mpr ⟨?_, List.pairwise_singleton _ _, ?_⟩
  · refine (inOrder.sublist List.filter_sublist).imp_of_mem ?_
    intro older newer olderMem newerMem before
    rwa [others older olderMem, others newer newerMem]
  · intro older olderMem newest isItem
    rw [List.mem_singleton.mp isItem, Function.update_self, others older olderMem]
    exact Nat.lt_succ_of_le (bounded older)

end Touching

end Recency
