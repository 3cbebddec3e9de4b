import MiniCache.RingMembers

/-!
# Every key has an owner

A ring that was made from some nodes routes every key to one of them, also when the labels of
virtual nodes collide.
-/

namespace Bisect

variable {α : Type*}

theorem loop_le {before : α → Bool} {items : List α} {low high : Nat} (inOrder : low ≤ high) :
    loop before items low high ≤ high := by
  fun_induction loop before items low high with
  | case1 => exact inOrder
  | case2 low high less item found pass ih => exact ih (by omega)
  | case3 low high less item found fail ih => exact (ih (by omega)).trans (by omega)
  | case4 => exact inOrder

theorem bisectRight_le [LinearOrder α] (items : List α) (x : α) :
    bisectRight items x ≤ items.length :=
  loop_le (Nat.zero_le _)

theorem mem_insort [LinearOrder α] {items : List α} {x y : α} :
    y ∈ insort items x ↔ y = x ∨ y ∈ items :=
  List.mem_insertIdx (bisectRight_le items x)

end Bisect

namespace MiniCache

namespace HashRing

variable {allowed : Text → Prop} {hashRing : HashRing} {node : Text}

/-- Every hash of the list has an allowed node, and the hashes of the dictionary are listed. -/
structure Routes (allowed : Text → Prop) (hashRing : HashRing) : Prop where
  owners : ∀ h ∈ hashRing.sortedHashes, ∃ node, allowed node ∧ hashRing.ring.get? h = some node
  hashes : ∀ h ∈ hashRing.ring.keys, h ∈ hashRing.sortedHashes

theorem Routes.place (md5 : Bytes → Nat) (routes : Routes allowed hashRing) (isAllowed : allowed node)
    (replica : Nat) : Routes allowed (place md5 node hashRing replica) := by
  constructor
  · intro h member
    simp only [HashRing.place, OrderedDict.get?_setItem]
    by_cases same : h = point md5 node replica
    · exact ⟨node, isAllowed, if_pos same⟩
    · have old := (Bisect.mem_insort.mp member).resolve_left same
      obtain ⟨owner, ok, found⟩ := routes.owners h old
      exact ⟨owner, ok, by rw [if_neg same, found]⟩
  · intro h member
    refine Bisect.mem_insort.mpr ?_
    rw [HashRing.place, ← OrderedDict.get?_isSome_iff, OrderedDict.get?_setItem] at member
    by_cases same : h = point md5 node replica
    · exact Or.inl same
    · rw [if_neg same, OrderedDict.get?_isSome_iff] at member
      exact Or.inr (routes.hashes h member)

theorem Routes.places (md5 : Bytes → Nat) (routes : Routes allowed hashRing) (isAllowed : allowed node)
    (replicas : List Nat) :
    let placed := replicas.foldl (HashRing.place md5 node) hashRing
    Routes allowed placed ∧ placed.virtualNodes = hashRing.virtualNodes ∧
      (hashRing.sortedHashes ≠ [] ∨ replicas ≠ [] → placed.sortedHashes ≠ []) := by
  induction replicas generalizing hashRing with
  | nil => exact ⟨routes, rfl, fun some => some.resolve_right (absurd rfl)⟩
  | cons replica replicas ih =>
      obtain ⟨kept, size, some⟩ := ih (routes.place md5 isAllowed replica)
      refine ⟨kept, size, fun _ => some (Or.inl ?_)⟩
      exact List.ne_nil_of_mem (Bisect.mem_insort.mpr (Or.inl rfl))

/-- A ring knows a node by a hash of its list. -/
theorem Routes.addNode (md5 : Bytes → Nat) (routes : Routes allowed hashRing) (isAllowed : allowed node)
    (positive : 0 < hashRing.virtualNodes) :
    let added := hashRing.addNode md5 node
    Routes allowed added ∧ added.virtualNodes = hashRing.virtualNodes ∧
      added.sortedHashes ≠ [] := by
  unfold HashRing.addNode
  dsimp only
  split_ifs with known
  · refine ⟨routes, rfl, ?_⟩
    obtain ⟨entry, member, -⟩ := List.mem_map.mp (List.mem_toFinset.mp known)
    exact List.ne_nil_of_mem (routes.hashes entry.1 (List.mem_map_of_mem member))
  · obtain ⟨kept, size, some⟩ :=
      routes.places md5 isAllowed (List.range hashRing.virtualNodes)
    refine ⟨kept, size, some (Or.inr ?_)⟩
    rw [ne_eq, List.range_eq_nil]
    omega

theorem Routes.init (md5 : Bytes → Nat) {nodes : List Text} (routes : Routes allowed hashRing)
    (areAllowed : ∀ node ∈ nodes, allowed node) (positive : 0 < hashRing.virtualNodes)
    (some : hashRing.sortedHashes ≠ [] ∨ nodes ≠ []) :
    let made := nodes.foldl (HashRing.addNode md5) hashRing
    Routes allowed made ∧ made.sortedHashes ≠ [] := by
  induction nodes generalizing hashRing with
  | nil => exact ⟨routes, some.resolve_right (absurd rfl)⟩
  | cons node nodes ih =>
      obtain ⟨first, rest⟩ := List.forall_mem_cons.mp areAllowed
      obtain ⟨kept, size, nonempty⟩ := routes.addNode md5 first positive
      exact ih kept rest (size ▸ positive) (Or.inl nonempty)

/-- The search ends at a hash of the list. -/
theorem Routes.getNode (md5 : Bytes → Nat) (routes : Routes allowed hashRing)
    (some : hashRing.sortedHashes ≠ []) (key : Arg) :
    ∃ node, allowed node ∧ hashRing.getNode md5 key = .ok node := by
  let idx := Bisect.bisectRight hashRing.sortedHashes (hash md5 key)
  have within : idx ≤ hashRing.sortedHashes.length := Bisect.bisectRight_le _ _
  have positive := List.length_pos_iff.mpr some
  have inside : (if idx = hashRing.sortedHashes.length then 0 else idx) <
      hashRing.sortedHashes.length := by
    split_ifs with last <;> omega
  obtain ⟨node, ok, found⟩ := routes.owners _ (List.getElem_mem inside)
  refine ⟨node, ok, ?_⟩
  unfold HashRing.getNode
  dsimp only
  rw [List.getElem?_eq_getElem inside]
  dsimp only
  rw [found]

/-- The ring made from some nodes routes every key to one of them. -/
theorem exists_getNode_init (md5 : Bytes → Nat) {virtualNodes : Nat}
    (positive : 0 < virtualNodes) {nodes : List Text} (some : nodes ≠ []) (key : Arg) :
    ∃ node ∈ nodes, (HashRing.init md5 virtualNodes nodes).getNode md5 key = .ok node := by
  have start : Routes (· ∈ nodes) (empty virtualNodes) :=
    ⟨fun _ member => (by cases member), fun _ member => (by cases member)⟩
  obtain ⟨routes, nonempty⟩ :=
    start.init md5 (fun _ member => member) positive (Or.inr some)
  exact routes.getNode md5 nonempty key

end HashRing

end MiniCache
