import MiniCache.Bisect
import MiniCache.OrderedDict
import MiniCache.PythonText
import Mathlib.Data.Finset.Image
import Mathlib.Data.Set.Function

/-!
# The consistent hash ring

The class `ConsistentHashRing` of the cluster client.  A node has a number of virtual nodes,
whose labels are hashed; a dictionary gives the node of a hash, and a sorted list of the
hashes is searched for the first one behind the hash of a key.  The digest is a parameter.
-/

namespace MiniCache

structure HashRing where
  virtualNodes : Nat
  ring : OrderedDict Nat Text
  sortedHashes : List Nat

/-- What `get_node` can raise. -/
inductive RingError
  | noNodes
  | missingHash (hash : Nat)
deriving DecidableEq

/-- The label of a virtual node. -/
def virtualLabel (node : Text) (replica : Nat) : Text := node ++ '#' :: intText replica

namespace HashRing

variable (md5 : Bytes → Nat)

/-- `ConsistentHashRing._hash`. -/
def hash (value : Arg) : Nat := md5 value.wire

/-- The hash of a virtual node. -/
def point (node : Text) (replica : Nat) : Nat := hash md5 (.str (virtualLabel node replica))

/-- The ring before any node is added. -/
def empty (virtualNodes : Nat) : HashRing := ⟨virtualNodes, .empty, []⟩

def nodes (hashRing : HashRing) : Finset Text := (hashRing.ring.entries.map Prod.snd).toFinset

/-- The body of the loop of `add_node`. -/
def place (node : Text) (hashRing : HashRing) (replica : Nat) : HashRing :=
  let h := point md5 node replica
  { hashRing with
    ring := hashRing.ring.setItem h node
    sortedHashes := Bisect.insort hashRing.sortedHashes h }

def addNode (hashRing : HashRing) (node : Text) : HashRing :=
  if node ∈ hashRing.nodes then hashRing
  else (List.range hashRing.virtualNodes).foldl (place md5 node) hashRing

/-- The body of the loop of `remove_node`. -/
def withdraw (node : Text) (hashRing : HashRing) (replica : Nat) : HashRing :=
  let h := point md5 node replica
  { hashRing with
    ring := hashRing.ring.pop h
    sortedHashes := Bisect.discard hashRing.sortedHashes h }

def removeNode (hashRing : HashRing) (node : Text) : HashRing :=
  (List.range hashRing.virtualNodes).foldl (withdraw md5 node) hashRing

def getNode (hashRing : HashRing) (key : Arg) : Except RingError Text :=
  let idx := Bisect.bisectRight hashRing.sortedHashes (hash md5 key)
  match hashRing.sortedHashes[if idx = hashRing.sortedHashes.length then 0 else idx]? with
  | none => .error .noNodes
  | some h =>
      match hashRing.ring.get? h with
      | none => .error (.missingHash h)
      | some node => .ok node

/-- `ConsistentHashRing.__init__`. -/
def init (virtualNodes : Nat) (nodes : List Text) : HashRing :=
  nodes.foldl (addNode md5) (empty virtualNodes)

end HashRing

/-- A call that changes the members of a ring. -/
inductive RingCall
  | addNode (node : Text)
  | removeNode (node : Text)
deriving DecidableEq

def RingCall.node : RingCall → Text
  | .addNode node | .removeNode node => node

/-- The last call for a node added it. -/
def LastAdded (calls : List RingCall) (node : Text) : Prop :=
  (calls.filter (·.node = node)).getLast? = some (.addNode node)

namespace HashRing

variable (md5 : Bytes → Nat)

def call (hashRing : HashRing) : RingCall → HashRing
  | .addNode node => hashRing.addNode md5 node
  | .removeNode node => hashRing.removeNode md5 node

/-- The ring after a sequence of calls. -/
def run (virtualNodes : Nat) (calls : List RingCall) : HashRing :=
  calls.foldl (call md5) (empty virtualNodes)

/-- The labels of the virtual nodes of some nodes. -/
def labels (virtualNodes : Nat) (used : Set Text) : Set Text :=
  {label | ∃ node ∈ used, ∃ replica < virtualNodes, label = virtualLabel node replica}

/-- No two labels of the nodes have the same hash. -/
def Distinct (virtualNodes : Nat) (used : Set Text) : Prop :=
  Set.InjOn (fun label => hash md5 (.str label)) (labels virtualNodes used)

section Labels

theorem intText_injective {first second : Nat} (same : intText first = intText second) :
    first = second := by
  have digits (number : Nat) : Nat.ofDigitChars 10 (intText number) 0 = number := by
    rw [intText, if_neg (by omega), Int.natAbs_natCast]
    exact Nat.ofDigitChars_toDigits (by decide) (by decide)
  rw [← digits first, same, digits]

/-- The label tells the node and the replica, whatever the node is called. -/
theorem virtualLabel_inj {first second : Text} {replica other : Nat}
    (same : virtualLabel first replica = virtualLabel second other) :
    first = second ∧ replica = other := by
  have digits (number : Nat) : '#' ∉ intText number := by
    rw [intText, if_neg (by omega), Int.natAbs_natCast]
    intro member
    exact absurd (isDigit_of_mem_toDigits member) (by decide)
  -- what stands behind the last `#` is the number
  have behind (node : Text) (number : Nat) :
      (virtualLabel node number).reverse.takeWhile (· ≠ '#') = (intText number).reverse := by
    have passes : ∀ char ∈ (intText number).reverse, decide (char ≠ '#') = true := by
      intro char member
      rw [decide_eq_true_iff]
      rintro rfl
      exact digits number (List.mem_reverse.mp member)
    rw [virtualLabel, List.reverse_append, List.reverse_cons, List.append_assoc,
      List.takeWhile_append_of_pos passes]
    simp
  have number : replica = other := by
    have tails := behind first replica
    rw [same, behind] at tails
    exact (intText_injective (List.reverse_inj.mp tails)).symm
  subst number
  exact ⟨(List.append_left_inj _).mp same, rfl⟩

variable {md5 : Bytes → Nat} {virtualNodes : Nat} {used : Set Text}

theorem Distinct.point_inj (distinct : Distinct md5 virtualNodes used) {node other : Text}
    (nodeUsed : node ∈ used) (otherUsed : other ∈ used) {replica another : Nat}
    (inside : replica < virtualNodes) (anotherInside : another < virtualNodes)
    (same : point md5 node replica = point md5 other another) :
    node = other ∧ replica = another :=
  virtualLabel_inj (distinct ⟨node, nodeUsed, replica, inside, rfl⟩
    ⟨other, otherUsed, another, anotherInside, rfl⟩ same)

theorem Distinct.of_subset {fewer : Set Text} (distinct : Distinct md5 virtualNodes used)
    (subset : fewer ⊆ used) : Distinct md5 virtualNodes fewer := by
  refine Set.InjOn.mono ?_ distinct
  rintro label ⟨node, member, replica⟩
  exact ⟨node, subset member, replica⟩

end Labels

section Points

variable {md5 : Bytes → Nat} {hashRing other : HashRing} {points : Set (Nat × Text)}

/-- The ring stands for a set of points with their nodes. -/
structure Carries (points : Set (Nat × Text)) (hashRing : HashRing) : Prop where
  sorted : hashRing.sortedHashes.Pairwise (· < ·)
  hashes : ∀ h, h ∈ hashRing.sortedHashes ↔ ∃ node, (h, node) ∈ points
  owners : ∀ h node, hashRing.ring.get? h = some node ↔ (h, node) ∈ points

theorem carries_empty (virtualNodes : Nat) : Carries ∅ (empty virtualNodes) where
  sorted := List.Pairwise.nil
  hashes := by simp [empty]
  owners := by simp [empty]

theorem Carries.place (carries : Carries points hashRing) {node : Text} {replica : Nat}
    (new : ∀ owner, (point md5 node replica, owner) ∉ points) :
    Carries (insert (point md5 node replica, node) points) (place md5 node hashRing replica) where
  sorted := by
    refine Bisect.insort_pairwise carries.sorted _ fun member => ?_
    obtain ⟨owner, taken⟩ := (carries.hashes _).mp member
    exact new owner taken
  hashes := by
    intro h
    simp only [HashRing.place, (Bisect.insort_perm carries.sorted _).mem_iff, List.mem_cons,
      carries.hashes, Set.mem_insert_iff, Prod.mk.injEq, exists_or, exists_and_left, exists_eq,
      and_true]
  owners := by
    intro h owner
    simp only [HashRing.place, OrderedDict.get?_setItem, Set.mem_insert_iff, Prod.mk.injEq]
    split_ifs with here
    · subst here
      have absent := new owner
      constructor
      · rintro ⟨⟩
        exact Or.inl ⟨rfl, rfl⟩
      · rintro (⟨-, rfl⟩ | old)
        · rfl
        · exact absurd old absent
    · simp [here, carries.owners]

theorem Carries.withdraw (carries : Carries points hashRing) (node : Text) (replica : Nat) :
    Carries {entry ∈ points | entry.1 ≠ point md5 node replica}
      (withdraw md5 node hashRing replica) where
  sorted := by
    simp only [HashRing.withdraw, Bisect.discard_eq_erase carries.sorted]
    exact carries.sorted.sublist List.erase_sublist
  hashes := by
    intro h
    have nodup : hashRing.sortedHashes.Nodup := carries.sorted.imp fun less => less.ne
    simp only [HashRing.withdraw, Bisect.discard_eq_erase carries.sorted, nodup.mem_erase_iff,
      carries.hashes, Set.mem_sep_iff, exists_and_right]
    exact and_comm
  owners := by
    intro h owner
    simp only [HashRing.withdraw, OrderedDict.get?_pop, Set.mem_sep_iff]
    split_ifs with here <;> simp [here, carries.owners]

/-- Two rings that stand for the same points are equal, but for the order of the dictionary. -/
theorem Carries.same (carries : Carries points hashRing) (others : Carries points other) :
    other.sortedHashes = hashRing.sortedHashes ∧ ∀ h, other.ring.get? h = hashRing.ring.get? h := by
  constructor
  · refine others.sorted.eq_of_mem_iff carries.sorted fun h => ?_
    rw [others.hashes, carries.hashes]
  · intro h
    apply Option.ext
    intro node
    rw [others.owners, carries.owners]

theorem getNode_congr (sorted : other.sortedHashes = hashRing.sortedHashes)
    (ring : ∀ h, other.ring.get? h = hashRing.ring.get? h) (key : Arg) :
    other.getNode md5 key = hashRing.getNode md5 key := by
  simp only [getNode, sorted, ring]

variable (md5) in
/-- The owner of a key is the node of the first point clockwise from the hash of the key, and
only a ring without points has none. -/
theorem Carries.getNode_cases (carries : Carries points hashRing) (key : Arg) :
    (points = ∅ ∧ hashRing.getNode md5 key = .error .noNodes) ∨
      ∃ h node, (h, node) ∈ points ∧
        Clockwise.IsNext (Prod.fst '' points) (hash md5 key) h ∧
        hashRing.getNode md5 key = .ok node := by
  by_cases someHash : hashRing.sortedHashes = []
  · refine Or.inl ⟨?_, by simp [getNode, someHash]⟩
    rw [Set.eq_empty_iff_forall_notMem]
    rintro ⟨h, node⟩ member
    have listed := (carries.hashes h).mpr ⟨node, member⟩
    rw [someHash] at listed
    cases listed
  · have hashes : {h | h ∈ hashRing.sortedHashes} = Prod.fst '' points := by
      ext h
      simp [carries.hashes]
    obtain ⟨h, found, next⟩ :=
      Clockwise.isNext_bisectRight carries.sorted (hash md5 key) someHash
    obtain ⟨node, member⟩ := (carries.hashes h).mp next.1
    rw [hashes] at next
    refine Or.inr ⟨h, node, member, next, ?_⟩
    simp only [getNode, found, (carries.owners h node).mpr member]

theorem Carries.getNode_eq_ok_iff (carries : Carries points hashRing) {key : Arg} {node : Text} :
    hashRing.getNode md5 key = .ok node ↔
      ∃ h, (h, node) ∈ points ∧ Clockwise.IsNext (Prod.fst '' points) (hash md5 key) h := by
  rcases carries.getNode_cases md5 key with ⟨nothing, failed⟩ | ⟨h, owner, member, next, found⟩
  · simp [failed, nothing]
  · rw [found]
    constructor
    · rintro ⟨⟩
      exact ⟨h, member, next⟩
    · rintro ⟨other, otherMem, otherNext⟩
      obtain rfl := next.unique otherNext
      rw [← carries.owners] at member otherMem
      rw [← Option.some.inj (member.symm.trans otherMem)]

end Points

end HashRing

end MiniCache
