import MiniCache.RingMembers

/-!
# How little the hash ring moves

A node that joins takes keys over for itself alone, and a node that leaves gives up its own
keys alone: the first point clockwise from a key stays the first when points of other nodes
come or go.
-/

namespace MiniCache.HashRing

variable {md5 : Bytes → Nat} {virtualNodes : Nat} {used members : Set Text}
  {hashRing : HashRing} {node : Text}

theorem pointsOf_subset {fewer : Set Text} (subset : fewer ⊆ members) :
    pointsOf md5 virtualNodes fewer ⊆ pointsOf md5 virtualNodes members :=
  fun _ member => ⟨subset member.1, member.2⟩

/-- A node that is not on the ring has no points there. -/
theorem Has.pointsOf_absent (has : Has md5 virtualNodes members hashRing)
    (absent : node ∉ hashRing.nodes) :
    pointsOf md5 virtualNodes (insert node members \ {node}) =
      pointsOf md5 virtualNodes members := by
  refine Set.Subset.antisymm (pointsOf_subset ?_) ?_
  · rintro other ⟨rfl | isMember, different⟩
    · exact absurd rfl different
    · exact isMember
  · rintro ⟨h, owner⟩ ⟨isMember, replica, inside, same⟩
    refine ⟨⟨Set.mem_insert_of_mem node isMember, ?_⟩, replica, inside, same⟩
    rintro rfl
    exact absent (has.mem_nodes_iff.mpr ⟨isMember, by omega⟩)

section Calls

variable (distinct : Distinct md5 virtualNodes used) (subset : members ⊆ used)
  (nodeUsed : node ∈ used) (has : Has md5 virtualNodes members hashRing) (key : Arg)

include distinct subset nodeUsed has

/-- A key goes to the node that joins, or it stays. -/
theorem Has.getNode_addNode :
    (hashRing.addNode md5 node).getNode md5 key = hashRing.getNode md5 key ∨
      (hashRing.addNode md5 node).getNode md5 key = .ok node := by
  have fewer : pointsOf md5 virtualNodes members ⊆
      pointsOf md5 virtualNodes (insert node members) :=
    pointsOf_subset (Set.subset_insert node members)
  have after := (has.addNode distinct subset nodeUsed).carries
  rcases after.getNode_cases md5 key with ⟨nothing, failed⟩ | ⟨h, owner, member, next, found⟩
  · rcases has.carries.getNode_cases md5 key with ⟨-, failedToo⟩ | ⟨h, owner, member, -⟩
    · exact Or.inl (failed.trans failedToo.symm)
    · have impossible := fewer member
      rw [nothing] at impossible
      cases impossible
  · obtain ⟨rfl | isMember, placed⟩ := member
    · exact Or.inr found
    · refine Or.inl (found.trans (has.carries.getNode_eq_ok_iff.mpr ⟨h, ⟨isMember, placed⟩,
        next.of_subset (Set.image_mono fewer) ?_⟩).symm)
      exact ⟨(h, owner), ⟨isMember, placed⟩, rfl⟩

/-- A key that was not with the node that leaves stays, and none goes to it. -/
theorem Has.getNode_removeNode {owner : Text} (found : hashRing.getNode md5 key = .ok owner) :
    (owner ≠ node → (hashRing.removeNode md5 node).getNode md5 key = .ok owner) ∧
      (hashRing.removeNode md5 node).getNode md5 key ≠ .ok node := by
  have after := (has.removeNode distinct subset nodeUsed).carries
  constructor
  · intro different
    obtain ⟨h, ⟨isMember, placed⟩, next⟩ := has.carries.getNode_eq_ok_iff.mp found
    refine after.getNode_eq_ok_iff.mpr ⟨h, ⟨⟨isMember, different⟩, placed⟩,
      next.of_subset (Set.image_mono (pointsOf_subset Set.sdiff_subset)) ?_⟩
    exact ⟨(h, owner), ⟨⟨isMember, different⟩, placed⟩, rfl⟩
  · intro answered
    obtain ⟨h, ⟨⟨-, different⟩, -⟩, -⟩ := after.getNode_eq_ok_iff.mp answered
    exact different rfl

/-- A node that joins and leaves again leaves no trace. -/
theorem Has.getNode_addNode_removeNode (absent : node ∉ hashRing.nodes) :
    ((hashRing.addNode md5 node).removeNode md5 node).getNode md5 key =
      hashRing.getNode md5 key := by
  have joined := has.addNode distinct subset nodeUsed
  have left := (joined.removeNode distinct (Set.insert_subset nodeUsed subset) nodeUsed).carries
  rw [has.pointsOf_absent absent] at left
  obtain ⟨sorted, ring⟩ := has.carries.same left
  exact getNode_congr sorted ring key

end Calls

/-- On every ring that can be reached, a node that joins takes keys over for itself alone; a
node that leaves others behind gives up its own keys alone, and has none left; and a node that
was not there, joins and leaves gives every key back. -/
theorem moves_little (md5 : Bytes → Nat) (virtualNodes : Nat) (calls : List RingCall)
    (node : Text) (distinct : Distinct md5 virtualNodes (insert node (named calls)))
    (key : Arg) :
    let hashRing := run md5 virtualNodes calls
    (node ∉ hashRing.nodes →
      (hashRing.addNode md5 node).getNode md5 key = hashRing.getNode md5 key ∨
        (hashRing.addNode md5 node).getNode md5 key = .ok node) ∧
      (node ∈ hashRing.nodes → (∃ other ∈ hashRing.nodes, other ≠ node) →
        ((hashRing.removeNode md5 node).getNode md5 key ≠ hashRing.getNode md5 key →
          hashRing.getNode md5 key = .ok node) ∧
        (hashRing.removeNode md5 node).getNode md5 key ≠ .ok node) ∧
      (node ∉ hashRing.nodes →
        ((hashRing.addNode md5 node).removeNode md5 node).getNode md5 key =
          hashRing.getNode md5 key) := by
  intro hashRing
  have has : Has md5 virtualNodes {node | LastAdded calls node} hashRing :=
    has_run calls distinct (Set.subset_insert node (named calls))
  have subset : {node | LastAdded calls node} ⊆ insert node (named calls) :=
    fun other added => Set.mem_insert_of_mem node added.named
  have nodeUsed : node ∈ insert node (named calls) := Set.mem_insert node (named calls)
  refine ⟨fun _ => has.getNode_addNode distinct subset nodeUsed key, fun present _ => ?_,
    has.getNode_addNode_removeNode distinct subset nodeUsed key⟩
  rcases has.carries.getNode_cases md5 key with ⟨nothing, -⟩ | ⟨h, owner, -, -, found⟩
  · obtain ⟨isMember, positive⟩ := has.mem_nodes_iff.mp present
    have inside : (point md5 node 0, node) ∈
        pointsOf md5 virtualNodes {node | LastAdded calls node} :=
      ⟨isMember, 0, positive, rfl⟩
    rw [nothing] at inside
    cases inside
  · obtain ⟨stays, never⟩ := has.getNode_removeNode distinct subset nodeUsed key found
    refine ⟨fun changed => ?_, never⟩
    by_contra notMine
    rw [found] at changed notMine
    exact changed (stays fun same => notMine (congrArg Except.ok same))

theorem named_twoNodes : insert ['a'] (named [.addNode ['a'], .addNode ['b']]) = {['a'], ['b']} := by
  ext node
  simp only [named, Set.mem_insert_iff, Set.mem_ofPred_eq, List.mem_cons, List.not_mem_nil,
    or_false, Set.mem_singleton_iff, exists_eq_or_imp, exists_eq_left, RingCall.node, eq_comm]
  tauto

theorem moves_little_leaving :
    let hashRing := run sampleDigest 1 [.addNode ['a'], .addNode ['b']]
    hashRing.getNode sampleDigest (.bytes [107]) = .ok ['a'] ∧
      (hashRing.removeNode sampleDigest ['a']).getNode sampleDigest (.bytes [107]) ≠
        .ok ['a'] := by
  intro hashRing
  have distinct : Distinct sampleDigest 1
      (insert ['a'] (named [.addNode ['a'], .addNode ['b']])) := by
    rw [named_twoNodes]
    exact distinct_sampleDigest
  exact ⟨by decide +kernel, ((moves_little sampleDigest 1 [.addNode ['a'], .addNode ['b']] ['a']
    distinct (.bytes [107])).2.1 (by decide +kernel) ⟨['b'], by decide +kernel, by decide⟩).2⟩

/-- To add a node that is there already changes nothing, and to remove it then does. -/
theorem moves_present_node :
    let hashRing := run sampleDigest 1 [.addNode ['a'], .addNode ['b']]
    Distinct sampleDigest 1 (insert ['a'] (named [.addNode ['a'], .addNode ['b']])) ∧
      ((hashRing.addNode sampleDigest ['a']).removeNode sampleDigest ['a']).getNode
          sampleDigest (.bytes [107]) ≠
        hashRing.getNode sampleDigest (.bytes [107]) := by
  intro hashRing
  refine ⟨?_, by decide +kernel⟩
  rw [named_twoNodes]
  exact distinct_sampleDigest

end MiniCache.HashRing
