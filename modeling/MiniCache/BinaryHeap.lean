import Mathlib.Data.List.Perm.Basic
import Mathlib.Order.Basic
import Mathlib.Order.Lattice
import Mathlib.Tactic.SplitIfs

/-!
# Array-backed binary min-heaps

The priority queue of the Python `heapq` module: a level-order array in which
no entry is below its parent.  A removal moves the hole at the root down to a
leaf along the smaller children before the displaced entry is lifted back, as
`heapq` does, so the layout of the array is that of the library.  The file
proves that every operation permutes the entries and restores the order.
-/

namespace BinaryHeap

variable {α : Type*} [LinearOrder α]

/-- Lift the entry at `pos` past every larger ancestor, no further than
`startpos`. -/
def siftdown (startpos : Nat) (heap : Array α) (pos : Nat) : Array α :=
  if inside : startpos < pos ∧ pos < heap.size then
    if heap[pos] < heap[(pos - 1) / 2] then
      siftdown startpos (heap.swap pos ((pos - 1) / 2)) ((pos - 1) / 2)
    else
      heap
  else
    heap
termination_by pos

/-- Move the entry at `pos` down to a leaf, raising the smaller child at every
level, and report the leaf it reached. -/
def sinkToLeaf (heap : Array α) (pos : Nat) : Array α × Nat :=
  if leftInside : 2 * pos + 1 < heap.size then
    if rightInside : 2 * pos + 2 < heap.size then
      if heap[2 * pos + 1] < heap[2 * pos + 2] then
        sinkToLeaf (heap.swap pos (2 * pos + 1)) (2 * pos + 1)
      else
        sinkToLeaf (heap.swap pos (2 * pos + 2)) (2 * pos + 2)
    else
      sinkToLeaf (heap.swap pos (2 * pos + 1)) (2 * pos + 1)
  else
    (heap, pos)
termination_by heap.size - pos
decreasing_by all_goals simp only [Array.size_swap]; omega

/-- Restore the order below `pos`, whose entry may be too large. -/
def siftup (heap : Array α) (pos : Nat) : Array α :=
  siftdown pos (sinkToLeaf heap pos).1 (sinkToLeaf heap pos).2

def heappush (heap : Array α) (item : α) : Array α :=
  siftdown 0 (heap.push item) heap.size

/-- The smallest entry and the heap without it. -/
def heappop (heap : Array α) : Option (α × Array α) :=
  match heap.back? with
  | none => none
  | some lastelt =>
      if nonempty : 0 < heap.pop.size then
        some (heap.pop[0], siftup (heap.pop.set 0 lastelt) 0)
      else
        some (lastelt, heap.pop)

/-- The loop of `heapify` over the positions below `count`, last first. -/
def heapifyBelow : Nat → Array α → Array α
  | 0, heap => heap
  | count + 1, heap => heapifyBelow count (siftup heap count)

def heapify (entries : Array α) : Array α :=
  heapifyBelow (entries.size / 2) entries

section Permutations

theorem siftdown_perm (startpos : Nat) (heap : Array α) (pos : Nat) :
    (siftdown startpos heap pos).Perm heap := by
  fun_induction siftdown startpos heap pos with
  | case1 heap pos inside smaller ih => exact ih.trans (Array.swap_perm _ _)
  | case2 => exact Array.Perm.refl _
  | case3 => exact Array.Perm.refl _

theorem sinkToLeaf_perm (heap : Array α) (pos : Nat) :
    (sinkToLeaf heap pos).1.Perm heap := by
  fun_induction sinkToLeaf heap pos with
  | case1 heap pos _ _ _ ih => exact ih.trans (Array.swap_perm _ _)
  | case2 heap pos _ _ _ ih => exact ih.trans (Array.swap_perm _ _)
  | case3 heap pos _ _ ih => exact ih.trans (Array.swap_perm _ _)
  | case4 => exact Array.Perm.refl _

theorem siftup_perm (heap : Array α) (pos : Nat) :
    (siftup heap pos).Perm heap :=
  (siftdown_perm _ _ _).trans (sinkToLeaf_perm heap pos)

theorem heappush_perm (heap : Array α) (item : α) :
    (heappush heap item).Perm (heap.push item) :=
  siftdown_perm _ _ _

theorem heapifyBelow_perm (count : Nat) (heap : Array α) :
    (heapifyBelow count heap).Perm heap := by
  induction count generalizing heap with
  | zero => exact Array.Perm.refl _
  | succ count ih => exact (ih _).trans (siftup_perm heap count)

theorem heapify_perm (entries : Array α) :
    (heapify entries).Perm entries :=
  heapifyBelow_perm _ _

theorem siftup_size (heap : Array α) (pos : Nat) :
    (siftup heap pos).size = heap.size :=
  (siftup_perm heap pos).size_eq

omit [LinearOrder α] in
theorem empty_or_push (heap : Array α) :
    heap = #[] ∨ ∃ front lastelt, heap = Array.push front lastelt := by
  rcases Nat.eq_zero_or_pos heap.size with empty | nonempty
  · exact Or.inl (Array.eq_empty_of_size_eq_zero empty)
  · exact Or.inr (Array.exists_push_of_size_pos nonempty)

/-- `heappop` on a heap whose last entry is exposed. -/
theorem heappop_push (rest : Array α) (lastelt : α) :
    heappop (rest.push lastelt) =
      if nonempty : 0 < rest.size then
        some (rest[0], siftup (rest.set 0 lastelt) 0)
      else
        some (lastelt, rest) := by
  simp [heappop]

theorem heappop_eq_none_iff (heap : Array α) :
    heappop heap = none ↔ heap.size = 0 := by
  rcases empty_or_push heap with rfl | ⟨rest, lastelt, rfl⟩
  · simp [heappop]
  · rw [heappop_push]
    split_ifs <;> simp

omit [LinearOrder α] in
/-- Overwriting the root and keeping it aside only permutes the entries. -/
theorem set_root_perm {heap : Array α} (nonempty : 0 < heap.size)
    (lastelt : α) :
    ((heap.set 0 lastelt).push heap[0]).Perm (heap.push lastelt) := by
  rcases heap with ⟨_ | ⟨root, rest⟩⟩
  · simp at nonempty
  · rw [Array.perm_iff_toList_perm]
    have swapped : (lastelt :: (rest ++ [root])).Perm (root :: (rest ++ [lastelt])) :=
      calc (lastelt :: (rest ++ [root])).Perm (lastelt :: root :: rest) :=
            (List.perm_append_singleton root rest).cons lastelt
        _ |>.Perm (root :: lastelt :: rest) := List.Perm.swap _ _ _
        _ |>.Perm (root :: (rest ++ [lastelt])) :=
            (List.perm_append_singleton lastelt rest).symm.cons root
    simpa using swapped

/-- Popping splits the heap into the reported entry and the rest. -/
theorem heappop_perm {heap rest : Array α} {item : α}
    (popped : heappop heap = some (item, rest)) :
    (rest.push item).Perm heap := by
  rcases empty_or_push heap with rfl | ⟨front, lastelt, rfl⟩
  · simp [heappop] at popped
  · rw [heappop_push] at popped
    split_ifs at popped with nonempty
    · simp only [Option.some.injEq, Prod.mk.injEq] at popped
      obtain ⟨rfl, rfl⟩ := popped
      exact ((siftup_perm _ 0).push _).trans (set_root_perm nonempty lastelt)
    · simp only [Option.some.injEq, Prod.mk.injEq] at popped
      obtain ⟨rfl, rfl⟩ := popped
      exact Array.Perm.refl _

end Permutations

section Order

/-- No entry whose parent position is `start` or later is below its parent. -/
def OrderedFrom (start : Nat) (heap : Array α) : Prop :=
  ∀ (pos : Nat) (inside : pos < heap.size), 0 < pos → start ≤ (pos - 1) / 2 →
    heap[(pos - 1) / 2] ≤ heap[pos]

/-- The heap order: no entry is below its parent. -/
def Ordered (heap : Array α) : Prop := OrderedFrom 0 heap

theorem ordered_empty : Ordered (#[] : Array α) := by
  intro pos inside
  exact absurd inside (Nat.not_lt_zero pos)

/-- Positions of the subtree rooted at `start`. -/
inductive Below (start : Nat) : Nat → Prop
  | root : Below start start
  | child {pos : Nat} : 0 < pos → Below start ((pos - 1) / 2) → Below start pos

theorem Below.start_le {start pos : Nat} (below : Below start pos) :
    start ≤ pos := by
  induction below with
  | root => exact Nat.le_refl _
  | child positive _ ih => omega

theorem Below.parent {start pos : Nat} (below : Below start pos)
    (above : start < pos) : Below start ((pos - 1) / 2) := by
  cases below with
  | root => omega
  | child _ below => exact below

/-- The state of a lift: only the edge into `pos` may be out of order, and the
parent of `pos` is not above the children of `pos`. -/
structure LiftReady (start pos : Nat) (heap : Array α) : Prop where
  edges : ∀ (child : Nat) (inside : child < heap.size), 0 < child →
    start ≤ (child - 1) / 2 → child ≠ pos →
      heap[(child - 1) / 2] ≤ heap[child]
  grand : ∀ (child : Nat) (inside : child < heap.size) (positive : 0 < child)
    (under : (child - 1) / 2 = pos), start < pos →
      heap[(pos - 1) / 2] ≤ heap[child]

/-- The state of a descent: only the edges into and out of `pos` may be out of
order, and the parent of `pos` is not above the children of `pos`. -/
structure SinkReady (start pos : Nat) (heap : Array α) : Prop where
  edges : ∀ (child : Nat) (inside : child < heap.size), 0 < child →
    start ≤ (child - 1) / 2 → child ≠ pos → (child - 1) / 2 ≠ pos →
      heap[(child - 1) / 2] ≤ heap[child]
  grand : ∀ (child : Nat) (inside : child < heap.size) (positive : 0 < child)
    (under : (child - 1) / 2 = pos), start < pos →
      heap[(pos - 1) / 2] ≤ heap[child]

theorem LiftReady.swap {start pos : Nat} {heap : Array α}
    (ready : LiftReady start pos heap) (above : start < pos)
    (below : Below start pos) (inside : pos < heap.size)
    (smaller : heap[pos] < heap[(pos - 1) / 2]) :
    LiftReady start ((pos - 1) / 2) (heap.swap pos ((pos - 1) / 2)) := by
  have parentBelow := (below.parent above).start_le
  constructor
  · intro child childInside positive childAbove childNe
    have childInside' : child < heap.size := by simpa using childInside
    by_cases atPos : child = pos
    · subst child
      simpa using smaller.le
    · by_cases underPos : (child - 1) / 2 = pos
      · have bound := ready.grand child childInside' positive underPos above
        simpa [Array.getElem_swap, underPos, atPos, childNe] using bound
      · have bound := ready.edges child childInside' positive childAbove atPos
        by_cases underParent : (child - 1) / 2 = (pos - 1) / 2
        · have bound' : heap[(pos - 1) / 2] ≤ heap[child] := by
            simpa only [underParent] using bound
          have parentNe : (pos - 1) / 2 ≠ pos := by omega
          simpa [Array.getElem_swap, underParent, atPos, childNe, parentNe]
            using smaller.le.trans bound'
        · simpa [Array.getElem_swap, underPos, underParent, atPos, childNe]
            using bound
  · intro child childInside positive underParent parentAbove
    have childInside' : child < heap.size := by simpa using childInside
    have grandBelow := ((below.parent above).parent parentAbove).start_le
    have grandNe : ((pos - 1) / 2 - 1) / 2 ≠ pos := by omega
    have grandNe' : ((pos - 1) / 2 - 1) / 2 ≠ (pos - 1) / 2 := by omega
    have childNe : child ≠ (pos - 1) / 2 := by omega
    have parentBound := ready.edges ((pos - 1) / 2) (by omega) (by omega)
      grandBelow (by omega)
    by_cases atPos : child = pos
    · subst child
      simpa [Array.getElem_swap, grandNe, grandNe'] using parentBound
    · have bound := ready.edges child childInside' positive (by omega) atPos
      have bound' : heap[(pos - 1) / 2] ≤ heap[child] := by
        simpa only [underParent] using bound
      simpa [Array.getElem_swap, grandNe, grandNe', atPos, childNe]
        using parentBound.trans bound'

theorem siftdown_ordered {start pos : Nat} {heap : Array α}
    (below : Below start pos) (ready : LiftReady start pos heap) :
    OrderedFrom start (siftdown start heap pos) := by
  fun_induction siftdown start heap pos with
  | case1 heap pos inside smaller ih =>
      exact ih (below.parent inside.1)
        (ready.swap inside.1 below inside.2 smaller)
  | case2 heap pos inside settled =>
      intro child childInside positive childAbove
      by_cases atPos : child = pos
      · subst child
        exact le_of_not_gt settled
      · exact ready.edges child childInside positive childAbove atPos
  | case3 heap pos outside =>
      intro child childInside positive childAbove
      -- The lift stopped at the root of its subtree or outside the array.
      have atRoot := below.start_le
      exact ready.edges child childInside positive childAbove (by omega)

theorem SinkReady.swap {start pos child : Nat} {heap : Array α}
    (ready : SinkReady start pos heap) (startLe : start ≤ pos)
    (inside : child < heap.size) (positive : 0 < child)
    (under : (child - 1) / 2 = pos)
    (smallest : ∀ (other : Nat) (otherInside : other < heap.size), 0 < other →
      (other - 1) / 2 = pos → heap[child] ≤ heap[other])
    (posInside : pos < heap.size) :
    SinkReady start child (heap.swap pos child) := by
  constructor
  · intro other otherInside otherPositive otherAbove otherNe parentNe
    have otherInside' : other < heap.size := by simpa using otherInside
    by_cases atPos : other = pos
    · subst other
      have bound := ready.grand child inside positive under (by omega)
      have parentNe' : (pos - 1) / 2 ≠ pos := by omega
      simpa [Array.getElem_swap, parentNe, parentNe'] using bound
    · by_cases underPos : (other - 1) / 2 = pos
      · have bound := smallest other otherInside' otherPositive underPos
        simpa [Array.getElem_swap, underPos, atPos, otherNe] using bound
      · have bound := ready.edges other otherInside' otherPositive otherAbove
          atPos underPos
        simpa [Array.getElem_swap, underPos, atPos, otherNe, parentNe]
          using bound
  · intro other otherInside otherPositive otherUnder childAbove
    have otherInside' : other < heap.size := by simpa using otherInside
    have bound := ready.edges other otherInside' otherPositive (by omega)
      (by omega) (by omega)
    have bound' : heap[child] ≤ heap[other] := by
      simpa only [otherUnder] using bound
    have otherNe : other ≠ pos := by omega
    have otherNe' : other ≠ child := by omega
    simpa [Array.getElem_swap, under, otherNe, otherNe'] using bound'

/-- A descent ends at a leaf, where the lift back can start. -/
theorem sinkToLeaf_ready {start pos : Nat} {heap : Array α}
    (below : Below start pos) (ready : SinkReady start pos heap) :
    Below start (sinkToLeaf heap pos).2 ∧
      LiftReady start (sinkToLeaf heap pos).2 (sinkToLeaf heap pos).1 := by
  fun_induction sinkToLeaf heap pos with
  | case1 heap pos leftInside rightInside smaller ih =>
      have under : (2 * pos + 1 - 1) / 2 = pos := by omega
      refine ih (.child (by omega) (under.symm ▸ below))
        (ready.swap below.start_le leftInside (by omega) under ?_ (by omega))
      intro other otherInside positive otherUnder
      obtain rfl | rfl : other = 2 * pos + 1 ∨ other = 2 * pos + 2 := by omega
      · exact le_refl _
      · exact smaller.le
  | case2 heap pos leftInside rightInside larger ih =>
      have under : (2 * pos + 2 - 1) / 2 = pos := by omega
      refine ih (.child (by omega) (under.symm ▸ below))
        (ready.swap below.start_le rightInside (by omega) under ?_ (by omega))
      intro other otherInside positive otherUnder
      obtain rfl | rfl : other = 2 * pos + 1 ∨ other = 2 * pos + 2 := by omega
      · exact le_of_not_gt larger
      · exact le_refl _
  | case3 heap pos leftInside rightOutside ih =>
      have under : (2 * pos + 1 - 1) / 2 = pos := by omega
      refine ih (.child (by omega) (under.symm ▸ below))
        (ready.swap below.start_le leftInside (by omega) under ?_ (by omega))
      intro other otherInside positive otherUnder
      obtain rfl : other = 2 * pos + 1 := by omega
      exact le_refl _
  | case4 heap pos leaf =>
      refine ⟨below, ?_, ready.grand⟩
      intro child inside positive above childNe
      have childInside : child < heap.size := inside
      exact ready.edges child inside positive above childNe (by omega)

theorem siftup_ordered {start : Nat} {heap : Array α}
    (ordered : OrderedFrom (start + 1) heap) :
    OrderedFrom start (siftup heap start) := by
  have ready : SinkReady start start heap :=
    ⟨fun child inside positive above _ parentNe =>
        ordered child inside positive (by omega),
      fun _ _ _ _ above => absurd above (Nat.lt_irrefl _)⟩
  obtain ⟨below, lift⟩ := sinkToLeaf_ready .root ready
  exact siftdown_ordered below lift

theorem heappush_ordered {heap : Array α} (ordered : Ordered heap)
    (item : α) : Ordered (heappush heap item) := by
  have rootBelow (pos : Nat) : Below 0 pos := by
    induction pos using Nat.strong_induction_on with
    | h pos ih =>
        rcases Nat.eq_zero_or_pos pos with rfl | positive
        · exact .root
        · exact .child positive (ih _ (by omega))
  apply siftdown_ordered (rootBelow _)
  constructor
  · intro child inside positive above childNe
    have inside' : child < heap.size := by
      rw [Array.size_push] at inside; omega
    have parentInside : (child - 1) / 2 < heap.size := by omega
    rw [Array.getElem_push_lt inside', Array.getElem_push_lt parentInside]
    exact ordered child inside' positive above
  · intro child inside positive under
    rw [Array.size_push] at inside
    omega

theorem heappop_ordered {heap rest : Array α} {item : α}
    (ordered : Ordered heap) (popped : heappop heap = some (item, rest)) :
    Ordered rest := by
  rcases empty_or_push heap with rfl | ⟨front, lastelt, rfl⟩
  · simp [heappop] at popped
  · have frontOrdered : OrderedFrom 1 front := by
      intro pos inside positive above
      have bound := ordered pos (by rw [Array.size_push]; omega) positive
        (by omega)
      have parentInside : (pos - 1) / 2 < front.size := by omega
      rwa [Array.getElem_push_lt inside, Array.getElem_push_lt parentInside]
        at bound
    rw [heappop_push] at popped
    split_ifs at popped with nonempty
    · simp only [Option.some.injEq, Prod.mk.injEq] at popped
      obtain ⟨-, rfl⟩ := popped
      apply siftup_ordered
      intro pos inside positive above
      have inside' : pos < front.size := by simpa using inside
      have bound := frontOrdered pos inside' positive above
      have posNe : 0 ≠ pos := by omega
      have parentNe : 0 ≠ (pos - 1) / 2 := by omega
      simpa [Array.getElem_set, posNe, parentNe] using bound
    · simp only [Option.some.injEq, Prod.mk.injEq] at popped
      obtain ⟨-, rfl⟩ := popped
      intro pos inside
      omega

theorem heapifyBelow_ordered (count : Nat) {heap : Array α}
    (ordered : OrderedFrom count heap) : Ordered (heapifyBelow count heap) := by
  induction count generalizing heap with
  | zero => exact ordered
  | succ count ih => exact ih (siftup_ordered ordered)

theorem heapify_ordered (entries : Array α) : Ordered (heapify entries) := by
  apply heapifyBelow_ordered
  intro pos inside positive above
  omega

/-- The root of an ordered heap is a lower bound. -/
theorem Ordered.root_le {heap : Array α} (ordered : Ordered heap)
    (pos : Nat) (inside : pos < heap.size) :
    heap[0] ≤ heap[pos] := by
  induction pos using Nat.strong_induction_on with
  | h pos ih =>
      rcases Nat.eq_zero_or_pos pos with rfl | positive
      · exact le_refl _
      · exact (ih ((pos - 1) / 2) (by omega) (by omega)).trans
          (ordered pos inside positive (Nat.zero_le _))

theorem Ordered.root_le_of_mem {heap : Array α} (ordered : Ordered heap)
    (nonempty : 0 < heap.size) {item : α} (member : item ∈ heap) :
    heap[0] ≤ item := by
  obtain ⟨pos, inside, rfl⟩ := Array.mem_iff_getElem.mp member
  exact ordered.root_le pos inside

/-- `heappop` reports the root. -/
theorem heappop_eq_root {heap rest : Array α} {item : α}
    (popped : heappop heap = some (item, rest)) :
    heap[0]? = some item := by
  rcases empty_or_push heap with rfl | ⟨front, lastelt, rfl⟩
  · simp [heappop] at popped
  · rw [heappop_push] at popped
    split_ifs at popped with nonempty
    · simp only [Option.some.injEq, Prod.mk.injEq] at popped
      obtain ⟨rfl, -⟩ := popped
      simp [Array.getElem_push, nonempty]
    · simp only [Option.some.injEq, Prod.mk.injEq] at popped
      obtain ⟨rfl, rfl⟩ := popped
      have empty : front.size = 0 := by omega
      simp [Array.getElem_push, empty]

end Order

end BinaryHeap
