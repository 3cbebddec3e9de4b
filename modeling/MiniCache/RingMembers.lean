import MiniCache.HashRing

/-!
# The members of the hash ring

After any calls a ring stands for the points of its members, the nodes that were added last.
It is therefore the ring that any other calls with the same members leave.
-/

namespace MiniCache

theorem lastAdded_append (calls : List RingCall) (call : RingCall) (node : Text) :
    LastAdded (calls ++ [call]) node ↔
      if call.node = node then call = .addNode node else LastAdded calls node := by
  rw [LastAdded, List.filter_append]
  split_ifs with here
  · simp [here]
  · simp [here, LastAdded]

/-- The nodes that some calls name. -/
def named (calls : List RingCall) : Set Text := {node | ∃ call ∈ calls, call.node = node}

theorem LastAdded.named {calls : List RingCall} {node : Text} (added : LastAdded calls node) :
    node ∈ named calls := by
  have member := List.mem_of_getLast? added
  exact ⟨.addNode node, List.mem_of_mem_filter member, rfl⟩

namespace HashRing

variable {md5 : Bytes → Nat} {virtualNodes : Nat} {used members : Set Text}
  {hashRing other : HashRing} {node : Text}

/-- The points of some nodes. -/
def pointsOf (md5 : Bytes → Nat) (virtualNodes : Nat) (members : Set Text) :
    Set (Nat × Text) :=
  {entry | entry.2 ∈ members ∧ ∃ replica < virtualNodes, entry.1 = point md5 entry.2 replica}

theorem mem_pointsOf {h : Nat} :
    (h, node) ∈ pointsOf md5 virtualNodes members ↔
      node ∈ members ∧ ∃ replica < virtualNodes, h = point md5 node replica :=
  Iff.rfl

/-- A ring with a number of virtual nodes for each of its members. -/
structure Has (md5 : Bytes → Nat) (virtualNodes : Nat) (members : Set Text)
    (hashRing : HashRing) : Prop where
  size : hashRing.virtualNodes = virtualNodes
  carries : Carries (pointsOf md5 virtualNodes members) hashRing

theorem has_empty (md5 : Bytes → Nat) (virtualNodes : Nat) :
    Has md5 virtualNodes ∅ (empty virtualNodes) := by
  refine ⟨rfl, ?_⟩
  have nothing : pointsOf md5 virtualNodes ∅ = ∅ := by
    ext entry
    simp [pointsOf]
  rw [nothing]
  exact carries_empty virtualNodes

/-- The ring knows the members that have a virtual node. -/
theorem Has.mem_nodes_iff (has : Has md5 virtualNodes members hashRing) :
    node ∈ hashRing.nodes ↔ node ∈ members ∧ 0 < virtualNodes := by
  rw [nodes, List.mem_toFinset, List.mem_map]
  constructor
  · rintro ⟨⟨h, owner⟩, member, rfl⟩
    rw [← OrderedDict.get?_eq_some_iff, has.carries.owners] at member
    obtain ⟨isMember, replica, inside, -⟩ := member
    exact ⟨isMember, by omega⟩
  · rintro ⟨isMember, positive⟩
    refine ⟨(point md5 node 0, node), ?_, rfl⟩
    rw [← OrderedDict.get?_eq_some_iff, has.carries.owners]
    exact ⟨isMember, 0, positive, rfl⟩

section Calls

variable (distinct : Distinct md5 virtualNodes used) (subset : members ⊆ used)
  (nodeUsed : node ∈ used)

include distinct subset nodeUsed

/-- The loop of `add_node` places one point of a new node after the other. -/
theorem Has.places (has : Has md5 virtualNodes members hashRing) (absent : node ∉ members)
    {count : Nat} (within : count ≤ virtualNodes) :
    let placed := (List.range count).foldl (place md5 node) hashRing
    placed.virtualNodes = virtualNodes ∧
      Carries (pointsOf md5 virtualNodes members ∪ pointsOf md5 count {node}) placed := by
  induction count with
  | zero =>
      refine ⟨has.size, ?_⟩
      have nothing : pointsOf md5 0 {node} = ∅ := by
        ext entry
        simp [pointsOf]
      rw [nothing, Set.union_empty]
      exact has.carries
  | succ count ih =>
      obtain ⟨size, carries⟩ := ih (by omega)
      simp only [List.range_succ, List.foldl_append, List.foldl_cons, List.foldl_nil]
      refine ⟨size, ?_⟩
      have new : ∀ owner, (point md5 node count, owner) ∉
          pointsOf md5 virtualNodes members ∪ pointsOf md5 count {node} := by
        rintro owner (⟨isMember, replica, inside, same⟩ | ⟨isNode, replica, inside, same⟩)
        · have one := (distinct.point_inj nodeUsed (subset isMember) (by omega) inside same).1
          exact absent (one ▸ isMember)
        · obtain rfl : owner = node := isNode
          have one := (distinct.point_inj nodeUsed nodeUsed (by omega) (by omega) same).2
          omega
      have more : insert (point md5 node count, node)
            (pointsOf md5 virtualNodes members ∪ pointsOf md5 count {node}) =
          pointsOf md5 virtualNodes members ∪ pointsOf md5 (count + 1) {node} := by
        ext ⟨h, owner⟩
        simp only [Set.mem_insert_iff, Set.mem_union, mem_pointsOf, Set.mem_singleton_iff,
          Prod.mk.injEq, Nat.lt_succ_iff_lt_or_eq, or_and_right, exists_or, exists_eq_left]
        constructor
        · rintro (⟨rfl, rfl⟩ | old | ⟨rfl, old⟩)
          · exact Or.inr ⟨rfl, Or.inr rfl⟩
          · exact Or.inl old
          · exact Or.inr ⟨rfl, Or.inl old⟩
        · rintro (old | ⟨rfl, old | rfl⟩)
          · exact Or.inr (Or.inl old)
          · exact Or.inr (Or.inr ⟨rfl, old⟩)
          · exact Or.inl ⟨rfl, rfl⟩
      rw [← more]
      exact carries.place new

theorem Has.addNode (has : Has md5 virtualNodes members hashRing) :
    Has md5 virtualNodes (insert node members) (hashRing.addNode md5 node) := by
  by_cases present : node ∈ hashRing.nodes
  · have isMember : node ∈ members := (has.mem_nodes_iff.mp present).1
    rwa [HashRing.addNode, if_pos present, Set.insert_eq_of_mem isMember]
  · rw [HashRing.addNode, if_neg present, has.size]
    have union : pointsOf md5 virtualNodes (insert node members) =
        pointsOf md5 virtualNodes members ∪ pointsOf md5 virtualNodes {node} := by
      ext entry
      simp only [pointsOf, Set.mem_insert_iff, Set.mem_singleton_iff, Set.mem_union,
        Set.mem_ofPred_eq]
      rw [or_and_right, or_comm]
    by_cases isMember : node ∈ members
    · -- without virtual nodes nothing is placed
      have zero : virtualNodes = 0 := by
        by_contra positive
        exact present (has.mem_nodes_iff.mpr ⟨isMember, by omega⟩)
      rw [Set.insert_eq_of_mem isMember]
      subst zero
      exact has
    · obtain ⟨size, carries⟩ := has.places distinct subset nodeUsed isMember (Nat.le_refl _)
      exact ⟨size, union ▸ carries⟩

omit distinct subset nodeUsed in
/-- The loop of `remove_node` takes one point of the node away after the other. -/
theorem Has.withdraws (has : Has md5 virtualNodes members hashRing) (count : Nat) :
    let left := (List.range count).foldl (withdraw md5 node) hashRing
    left.virtualNodes = virtualNodes ∧
      Carries {entry ∈ pointsOf md5 virtualNodes members |
        ∀ replica < count, entry.1 ≠ point md5 node replica} left := by
  induction count with
  | zero =>
      refine ⟨has.size, ?_⟩
      simpa using has.carries
  | succ count ih =>
      obtain ⟨size, carries⟩ := ih
      simp only [List.range_succ, List.foldl_append, List.foldl_cons, List.foldl_nil]
      refine ⟨size, ?_⟩
      have fewer : {entry ∈ {entry ∈ pointsOf md5 virtualNodes members |
            ∀ replica < count, entry.1 ≠ point md5 node replica} |
              entry.1 ≠ point md5 node count} =
          {entry ∈ pointsOf md5 virtualNodes members |
            ∀ replica < count + 1, entry.1 ≠ point md5 node replica} := by
        ext entry
        simp only [Set.mem_sep_iff, Nat.forall_lt_succ_right, and_assoc]
      rw [← fewer]
      exact carries.withdraw node count

theorem Has.removeNode (has : Has md5 virtualNodes members hashRing) :
    Has md5 virtualNodes (members \ {node}) (hashRing.removeNode md5 node) := by
  obtain ⟨size, carries⟩ := has.withdraws virtualNodes
  rw [HashRing.removeNode, has.size]
  refine ⟨size, ?_⟩
  have fewer : {entry ∈ pointsOf md5 virtualNodes members |
        ∀ replica < virtualNodes, entry.1 ≠ point md5 node replica} =
      pointsOf md5 virtualNodes (members \ {node}) := by
    ext ⟨h, owner⟩
    simp only [Set.mem_sep_iff, mem_pointsOf, Set.mem_sdiff, Set.mem_singleton_iff]
    constructor
    · rintro ⟨⟨isMember, replica, inside, rfl⟩, apart⟩
      refine ⟨⟨isMember, ?_⟩, replica, inside, rfl⟩
      rintro rfl
      exact apart replica inside rfl
    · rintro ⟨⟨isMember, different⟩, replica, inside, rfl⟩
      refine ⟨⟨isMember, replica, inside, rfl⟩, fun another within same => ?_⟩
      exact different (distinct.point_inj (subset isMember) nodeUsed inside within same).1
  rw [← fewer]
  exact carries

end Calls

/-- A ring has the nodes that were added last. -/
theorem has_run (calls : List RingCall) (distinct : Distinct md5 virtualNodes used)
    (subset : named calls ⊆ used) :
    Has md5 virtualNodes {node | LastAdded calls node} (run md5 virtualNodes calls) := by
  induction calls using List.reverseRecOn with
  | nil =>
      have nobody : {node | LastAdded [] node} = ∅ := by
        ext node
        simp [LastAdded]
      rw [nobody]
      exact has_empty md5 virtualNodes
  | append_singleton calls call ih =>
      have earlier : named calls ⊆ used := by
        rintro node ⟨other, member, rfl⟩
        exact subset ⟨other, List.mem_append_left _ member, rfl⟩
      have has := ih earlier
      have inside : {node | LastAdded calls node} ⊆ used :=
        fun node added => earlier added.named
      have nodeUsed : call.node ∈ used :=
        subset ⟨call, List.mem_append_right _ (List.mem_singleton_self _), rfl⟩
      rw [run, List.foldl_append, List.foldl_cons, List.foldl_nil, ← run]
      cases call with
      | addNode node =>
          have members : {other | LastAdded (calls ++ [.addNode node]) other} =
              insert node {node | LastAdded calls node} := by
            ext other
            rw [Set.mem_ofPred_eq, lastAdded_append, Set.mem_insert_iff]
            by_cases same : node = other <;> simp [RingCall.node, same, eq_comm]
          rw [members]
          exact has.addNode distinct inside nodeUsed
      | removeNode node =>
          have members : {other | LastAdded (calls ++ [.removeNode node]) other} =
              {node | LastAdded calls node} \ {node} := by
            ext other
            rw [Set.mem_ofPred_eq, lastAdded_append, Set.mem_sdiff, Set.mem_singleton_iff]
            by_cases same : node = other <;> simp [RingCall.node, same, eq_comm]
          rw [members]
          exact has.removeNode distinct inside nodeUsed

theorem init_eq_run (md5 : Bytes → Nat) (virtualNodes : Nat) (order : List Text) :
    init md5 virtualNodes order = run md5 virtualNodes (order.map .addNode) := by
  rw [init, run, List.foldl_map]
  rfl

theorem lastAdded_map_addNode {order : List Text} :
    LastAdded (order.map .addNode) node ↔ node ∈ order := by
  induction order using List.reverseRecOn with
  | nil => simp [LastAdded]
  | append_singleton order last ih =>
      rw [List.map_append, List.map_singleton, lastAdded_append]
      by_cases same : last = node
      · simp [RingCall.node, same]
      · simp [RingCall.node, same, Ne.symm same, ih]

/-- What a ring is depends on its members alone: its list is sorted and holds the keys of its
dictionary, its members are the nodes added last, it is the ring made from its members in any
order, and it routes every key as every ring with these members does. -/
theorem ring_of_members (md5 : Bytes → Nat) {virtualNodes : Nat} (positive : 0 < virtualNodes)
    (calls : List RingCall) (distinct : Distinct md5 virtualNodes (named calls)) :
    let hashRing := run md5 virtualNodes calls
    hashRing.sortedHashes.Pairwise (· < ·) ∧
      (∀ h, h ∈ hashRing.sortedHashes ↔ h ∈ hashRing.ring.keys) ∧
      (∀ node, node ∈ hashRing.nodes ↔ LastAdded calls node) ∧
      (∀ order : List Text, (∀ node, node ∈ order ↔ node ∈ hashRing.nodes) →
        (init md5 virtualNodes order).sortedHashes = hashRing.sortedHashes ∧
          ∀ h, (init md5 virtualNodes order).ring.get? h = hashRing.ring.get? h) ∧
      (hashRing.nodes.Nonempty →
        ∀ key, ∃ node ∈ hashRing.nodes, hashRing.getNode md5 key = .ok node) ∧
      ∀ others, Distinct md5 virtualNodes (named others) →
        (run md5 virtualNodes others).nodes = hashRing.nodes →
          ∀ key, (run md5 virtualNodes others).getNode md5 key = hashRing.getNode md5 key := by
  intro hashRing
  have has : Has md5 virtualNodes {node | LastAdded calls node} hashRing :=
    has_run calls distinct (Set.Subset.refl _)
  have nodes (node : Text) : node ∈ hashRing.nodes ↔ LastAdded calls node := by
    rw [has.mem_nodes_iff]
    exact and_iff_left positive
  have same {others : List RingCall} (distinctToo : Distinct md5 virtualNodes (named others))
      (members : ∀ node, LastAdded others node ↔ LastAdded calls node) :=
    has.carries.same (Set.ext members ▸ (has_run others distinctToo (Set.Subset.refl _)).carries)
  refine ⟨has.carries.sorted, ?_, nodes, ?_, ?_, ?_⟩
  · intro h
    rw [has.carries.hashes, ← OrderedDict.get?_isSome_iff, Option.isSome_iff_exists]
    exact exists_congr fun node => (has.carries.owners h node).symm
  · intro order lists
    rw [init_eq_run]
    refine same (distinct.of_subset ?_) fun node => ?_
    · rintro node ⟨call, member, rfl⟩
      obtain ⟨added, inOrder, rfl⟩ := List.mem_map.mp member
      exact ((nodes added).mp ((lists added).mp inOrder)).named
    · rw [lastAdded_map_addNode, lists, nodes]
  · rintro ⟨someNode, isNode⟩ key
    rcases has.carries.getNode_cases md5 key with ⟨nothing, -⟩ | ⟨h, node, member, -, found⟩
    · have inside : (point md5 someNode 0, someNode) ∈ pointsOf md5 virtualNodes
          {node | LastAdded calls node} :=
        ⟨(nodes someNode).mp isNode, 0, positive, rfl⟩
      rw [nothing] at inside
      cases inside
    · exact ⟨node, (nodes node).mpr member.1, found⟩
  · intro others distinctToo equal key
    have hasToo := has_run others distinctToo (Set.Subset.refl _)
    have members (node : Text) : LastAdded others node ↔ LastAdded calls node := by
      rw [← nodes node, ← equal, hasToo.mem_nodes_iff]
      exact (and_iff_left positive).symm
    obtain ⟨sorted, ring⟩ := same distinctToo members
    exact getNode_congr sorted ring key

/-- The digests of the labels `a#0` and `b#0` and of the key `k`. -/
def sampleDigest (data : Bytes) : Nat :=
  if data = [97, 35, 48] then 0xd83aa185673598caf4cbb0be7043ce70
  else if data = [98, 35, 48] then 0x1e592305e03a00d931412a84aae89d29
  else if data = [107] then 0x8ce4b16b22b58894aa86c421e8759df3
  else 0

theorem distinct_sampleDigest : Distinct sampleDigest 1 {['a'], ['b']} := by
  have apart : sampleDigest (encodeUtf8 (virtualLabel ['a'] 0)) ≠
      sampleDigest (encodeUtf8 (virtualLabel ['b'] 0)) := by
    decide +kernel
  rintro _ ⟨node, nodeUsed, replica, inside, rfl⟩ _ ⟨other, otherUsed, another, within, rfl⟩ same
  obtain rfl : replica = 0 := by omega
  obtain rfl : another = 0 := by omega
  rcases nodeUsed with rfl | rfl <;> rcases otherUsed with rfl | rfl
  · rfl
  · exact absurd same apart
  · exact absurd same.symm apart
  · rfl

theorem ring_of_members_reordered :
    (run sampleDigest 1 [.addNode ['b'], .addNode ['a']]).getNode sampleDigest (.bytes [107]) =
      (run sampleDigest 1 [.addNode ['a'], .removeNode ['b'], .addNode ['b'],
        .addNode ['a']]).getNode sampleDigest (.bytes [107]) := by
  refine (ring_of_members sampleDigest Nat.one_pos _ (distinct_sampleDigest.of_subset ?_)).2.2.2.2.2
    _ (distinct_sampleDigest.of_subset ?_) (by decide +kernel) (.bytes [107])
  · rintro node ⟨call, member, rfl⟩
    simp only [List.mem_cons, List.not_mem_nil, or_false] at member
    rcases member with rfl | rfl | rfl | rfl <;> simp [RingCall.node]
  · rintro node ⟨call, member, rfl⟩
    simp only [List.mem_cons, List.not_mem_nil, or_false] at member
    rcases member with rfl | rfl <;> simp [RingCall.node]

end HashRing

end MiniCache
