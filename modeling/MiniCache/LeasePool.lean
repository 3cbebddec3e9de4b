import Mathlib.Data.Finset.Card
import Mathlib.Data.Finset.Insert
import Mathlib.Data.List.Nodup
import Mathlib.Logic.Function.Basic

/-!
# Resources leased under permits

A holder takes a permit, and with it an idle resource or, when none is idle, the right to
make a new one.  It gives the permit back when it is done, together with the resource or
after discarding it.  No resource ever has two holders, and the resources that are idle or
held never outnumber the permits.
-/

namespace LeasePool

variable {ι : Type*} [DecidableEq ι]

/-- What a holder has: nothing, a permit, or a permit and a resource. -/
inductive Lease
  | free
  | bare
  | holding (resource : Nat)
deriving DecidableEq

/-- The permits that are left, the idle resources with the newest one last, the number of
the next new resource, and what every holder has. -/
structure State (ι : Type*) where
  permits : Nat
  idle : List Nat
  fresh : Nat
  lease : ι → Lease

namespace State

def update (state : State ι) (holder : ι) (lease : Lease) : State ι :=
  { state with lease := Function.update state.lease holder lease }

end State

/-- What can happen to permits and resources. -/
inductive Step (state : State ι) : State ι → Prop
  | stay : Step state state
  | takeIdle (holder : ι) (rest : List Nat) (resource : Nat) (isFree : state.lease holder = .free)
      (some : 0 < state.permits) (last : state.idle = rest ++ [resource]) :
      Step state { state.update holder (.holding resource) with
        permits := state.permits - 1
        idle := rest }
  | takeBare (holder : ι) (isFree : state.lease holder = .free) (some : 0 < state.permits)
      (empty : state.idle = []) :
      Step state { state.update holder .bare with permits := state.permits - 1 }
  | attach (holder : ι) (isBare : state.lease holder = .bare) :
      Step state { state.update holder (.holding state.fresh) with fresh := state.fresh + 1 }
  | giveBack (holder : ι) (resource : Nat) (holds : state.lease holder = .holding resource) :
      Step state { state.update holder .free with
        permits := state.permits + 1
        idle := state.idle ++ [resource] }
  | discard (holder : ι) (taken : state.lease holder ≠ .free) :
      Step state { state.update holder .free with permits := state.permits + 1 }
  | dropIdle (rest : List Nat) (resource : Nat) (last : state.idle = rest ++ [resource]) :
      Step state { state with idle := rest }

/-- The permits given out and left make up the capacity, and every resource is in one
place. -/
structure Sound (capacity : Nat) (state : State ι) : Prop where
  counted : ∃ holders : Finset ι, (∀ holder, holder ∈ holders ↔ state.lease holder ≠ .free) ∧
    state.permits + holders.card = capacity
  enough : state.idle.length ≤ state.permits
  idleNodup : state.idle.Nodup
  idleOld : ∀ resource ∈ state.idle, resource < state.fresh
  heldOld : ∀ holder resource, state.lease holder = .holding resource → resource < state.fresh
  apart : ∀ holder resource, state.lease holder = .holding resource → resource ∉ state.idle
  exclusive : ∀ holder other resource, state.lease holder = .holding resource →
    state.lease other = .holding resource → holder = other

variable {capacity : Nat} {state next : State ι}

omit [DecidableEq ι] in
theorem sound_init (capacity : Nat) :
    Sound capacity (⟨capacity, [], 0, fun _ => .free⟩ : State ι) where
  counted := ⟨∅, by simp, by simp⟩
  enough := Nat.zero_le _
  idleNodup := List.nodup_nil
  idleOld := by simp
  heldOld := by simp
  apart := by simp
  exclusive := by simp

/-- The holders after one of them took a permit. -/
theorem counted_take {permits : Nat} {lease : ι → Lease} {holder : ι} {taken : Lease}
    (counted : ∃ holders : Finset ι, (∀ holder, holder ∈ holders ↔ lease holder ≠ .free) ∧
      permits + holders.card = capacity)
    (isFree : lease holder = .free) (some : 0 < permits) (notFree : taken ≠ .free) :
    ∃ holders : Finset ι,
      (∀ other, other ∈ holders ↔ Function.update lease holder taken other ≠ .free) ∧
        permits - 1 + holders.card = capacity := by
  obtain ⟨holders, members, count⟩ := counted
  have absent : holder ∉ holders := by
    rw [members, isFree]
    exact fun different => different rfl
  refine ⟨insert holder holders, fun other => ?_, ?_⟩
  · by_cases same : other = holder
    · subst same
      simp [notFree]
    · simp [same, members]
  · rw [Finset.card_insert_of_notMem absent]
    omega

/-- The holders after one of them gave its permit back. -/
theorem counted_give {permits : Nat} {lease : ι → Lease} {holder : ι}
    (counted : ∃ holders : Finset ι, (∀ holder, holder ∈ holders ↔ lease holder ≠ .free) ∧
      permits + holders.card = capacity)
    (taken : lease holder ≠ .free) :
    ∃ holders : Finset ι,
      (∀ other, other ∈ holders ↔ Function.update lease holder .free other ≠ .free) ∧
        permits + 1 + holders.card = capacity := by
  obtain ⟨holders, members, count⟩ := counted
  have present := (members holder).mpr taken
  refine ⟨holders.erase holder, fun other => ?_, ?_⟩
  · by_cases same : other = holder
    · subst same
      simp
    · simp [same, members]
  · have positive := Finset.card_pos.mpr ⟨holder, present⟩
    rw [Finset.card_erase_of_mem present]
    omega

/-- A lease of a changed holder or an old lease of another one. -/
theorem update_holding {lease : ι → Lease} {holder other : ι} {changed : Lease} {resource : Nat}
    (holds : Function.update lease holder changed other = .holding resource) :
    (other = holder ∧ changed = .holding resource) ∨
      (other ≠ holder ∧ lease other = .holding resource) := by
  by_cases same : other = holder
  · subst same
    rw [Function.update_self] at holds
    exact Or.inl ⟨rfl, holds⟩
  · rw [Function.update_of_ne same] at holds
    exact Or.inr ⟨same, holds⟩

/-- A holder that gives up its lease leaves the leases of the others. -/
theorem of_update_free {lease : ι → Lease} {holder other : ι} {resource : Nat}
    (holds : Function.update lease holder .free other = .holding resource) :
    other ≠ holder ∧ lease other = .holding resource := by
  rcases update_holding holds with ⟨-, impossible⟩ | old
  · cases impossible
  · exact old

theorem Step.sound (step : Step state next) (sound : Sound capacity state) :
    Sound capacity next := by
  cases step with
  | stay => exact sound
  | takeIdle holder rest resource isFree some last =>
      have old := sound.idleOld
      have nodup := sound.idleNodup
      have enough := sound.enough
      rw [last, List.length_append, List.length_singleton] at enough
      rw [last] at old nodup
      have new : resource ∉ rest := fun member =>
        (List.nodup_append.mp nodup).2.2 _ member _ (List.mem_singleton_self _) rfl
      have unheld : ∀ other, state.lease other ≠ .holding resource := fun other holds =>
        sound.apart other resource holds (by simp [last])
      refine ⟨counted_take sound.counted isFree some (by simp), ?_, nodup.of_append_left, ?_, ?_,
        ?_, ?_⟩
      · show rest.length ≤ state.permits - 1
        omega
      · exact fun other member => old other (List.mem_append_left _ member)
      · intro other held holds
        rcases update_holding holds with ⟨-, same⟩ | ⟨-, before⟩
        · cases same
          exact old resource (by simp)
        · exact sound.heldOld other held before
      · intro other held holds member
        rcases update_holding holds with ⟨-, same⟩ | ⟨-, before⟩
        · cases same
          exact new member
        · refine sound.apart other held before ?_
          rw [last]
          exact List.mem_append_left _ member
      · intro first second held holds also
        rcases update_holding holds with ⟨isHolder, same⟩ | ⟨-, before⟩ <;>
          rcases update_holding also with ⟨alsoHolder, alsoSame⟩ | ⟨-, alsoBefore⟩
        · rw [isHolder, alsoHolder]
        · cases same
          exact absurd alsoBefore (unheld second)
        · cases alsoSame
          exact absurd before (unheld first)
        · exact sound.exclusive first second held before alsoBefore
  | takeBare holder isFree some empty =>
      have held {other : ι} {resource : Nat}
          (holds : Function.update state.lease holder .bare other = .holding resource) :
          state.lease other = .holding resource := by
        rcases update_holding holds with ⟨-, impossible⟩ | ⟨-, before⟩
        · cases impossible
        · exact before
      refine ⟨counted_take sound.counted isFree some (by simp), ?_, sound.idleNodup,
        sound.idleOld, ?_, ?_, ?_⟩
      · show state.idle.length ≤ state.permits - 1
        rw [empty]
        exact Nat.zero_le _
      · exact fun other resource holds => sound.heldOld other resource (held holds)
      · exact fun other resource holds => sound.apart other resource (held holds)
      · exact fun first second resource holds also =>
          sound.exclusive first second resource (held holds) (held also)
  | attach holder isBare =>
      have old := sound.heldOld
      refine ⟨?_, sound.enough, sound.idleNodup, ?_, ?_, ?_, ?_⟩
      · obtain ⟨holders, members, count⟩ := sound.counted
        refine ⟨holders, fun other => ?_, count⟩
        by_cases same : other = holder
        · subst same
          simp [State.update, members, isBare]
        · simp [State.update, same, members]
      · exact fun resource member => Nat.lt_succ_of_lt (sound.idleOld resource member)
      · intro other resource holds
        rcases update_holding holds with ⟨-, same⟩ | ⟨-, before⟩
        · cases same
          exact Nat.lt_succ_self _
        · exact Nat.lt_succ_of_lt (old other resource before)
      · intro other resource holds member
        rcases update_holding holds with ⟨-, same⟩ | ⟨-, before⟩
        · cases same
          exact absurd (sound.idleOld _ member) (Nat.lt_irrefl _)
        · exact sound.apart other resource before member
      · intro first second resource holds also
        rcases update_holding holds with ⟨isHolder, same⟩ | ⟨-, before⟩ <;>
          rcases update_holding also with ⟨alsoHolder, alsoSame⟩ | ⟨-, alsoBefore⟩
        · rw [isHolder, alsoHolder]
        · cases same
          exact absurd (old second _ alsoBefore) (Nat.lt_irrefl _)
        · cases alsoSame
          exact absurd (old first _ before) (Nat.lt_irrefl _)
        · exact sound.exclusive first second resource before alsoBefore
  | giveBack holder resource holds =>
      have taken : state.lease holder ≠ .free := by simp [holds]
      have new := sound.apart holder resource holds
      refine ⟨counted_give sound.counted taken, ?_, ?_, ?_, ?_, ?_, ?_⟩
      · show (state.idle ++ [resource]).length ≤ state.permits + 1
        have enough := sound.enough
        simpa using enough
      · exact List.nodup_append.mpr ⟨sound.idleNodup, by simp, by
          rintro other member last isLast rfl
          exact new (List.mem_singleton.mp isLast ▸ member)⟩
      · intro other member
        rcases List.mem_append.mp member with before | isLast
        · exact sound.idleOld other before
        · rw [List.mem_singleton.mp isLast]
          exact sound.heldOld holder resource holds
      · exact fun other held also => sound.heldOld other held (of_update_free also).2
      · intro other held also member
        obtain ⟨different, before⟩ := of_update_free also
        rcases List.mem_append.mp member with old | isLast
        · exact sound.apart other held before old
        · rw [List.mem_singleton.mp isLast] at before
          exact different (sound.exclusive other holder resource before holds)
      · exact fun first second held one two => sound.exclusive first second held
          (of_update_free one).2 (of_update_free two).2
  | discard holder taken =>
      refine ⟨counted_give sound.counted taken, Nat.le_succ_of_le sound.enough, sound.idleNodup,
        sound.idleOld, ?_, ?_, ?_⟩
      · exact fun other held also => sound.heldOld other held (of_update_free also).2
      · exact fun other held also => sound.apart other held (of_update_free also).2
      · exact fun first second held one two => sound.exclusive first second held
          (of_update_free one).2 (of_update_free two).2
  | dropIdle rest resource last =>
      have sublist : rest.Sublist state.idle := by
        rw [last]
        exact List.sublist_append_left _ _
      exact ⟨sound.counted, sublist.length_le.trans sound.enough,
        sound.idleNodup.sublist sublist, fun other member =>
          sound.idleOld other (sublist.subset member), sound.heldOld,
        fun other held holds member => sound.apart other held holds (sublist.subset member),
        sound.exclusive⟩

end LeasePool
