import MiniCache.ClockReadings
import MiniCache.CommandOutcome

/-!
# Commands in one instant

A command that reads the clock several times is atomic when some instant between its first
and its last reading explains it: executed there, it gives the same reply and the same live
contents, up to stored deadlines that are apart by no more than the time it took.  What goes
wrong is that a deadline passes between two readings of one command.
-/

namespace MiniCache

open ExpiringMap (Alive)

namespace Store

/-- Two stored deadlines are both missing, or apart by no more than a width. -/
def Nearby (width : Time) : Option Time → Option Time → Prop
  | none, none => True
  | some first, some second => |first - second| ≤ width
  | _, _ => False

theorem Nearby.refl {width : Time} (nonneg : 0 ≤ width) (deadline : Option Time) :
    Nearby width deadline deadline := by
  cases deadline with
  | none => trivial
  | some moment => simpa [Nearby] using nonneg

theorem nearby_map {width first second : Time} (near : |first - second| ≤ width)
    (ttl : Option Time) : Nearby width (ttl.map (first + ·)) (ttl.map (second + ·)) := by
  cases ttl with
  | none => trivial
  | some ttl => simpa [Nearby] using near

/-- Two stores show the same live contents at an instant, up to stored deadlines. -/
def SameLive (width now : Time) (store other : Store) : Prop :=
  ∀ key, ((store.live now).get? key = none ∧ (other.live now).get? key = none) ∨
    ∃ value first second, store.plain key = some (value, first) ∧
      other.plain key = some (value, second) ∧ Nearby width first second

/-- A deadline passes after one reading of the clock and by another. -/
def Splits (first second : Time) (deadline : Option Time) : Prop :=
  ∃ moment ∈ deadline, first < moment ∧ moment ≤ second

/-- Storing the value takes the store over its limit, so that it sweeps and evicts. -/
def Overflows (store : Store) (key value : Arg) : Prop := (store.put key value none).Sweeps

instance (store : Store) (key value : Arg) : Decidable (store.Overflows key value) :=
  inferInstanceAs (Decidable (Sweeps _))

section Contents

variable {store other : Store} {key value : Arg} {first second now width : Time}

theorem deadline_eq (store : Store) (key : Arg) :
    store.deadline key = (store.plain key).bind Prod.snd := by
  rw [deadline, plain_eq]
  cases store.data.get? key <;> rfl

theorem sameLive_of_plain (nonneg : 0 ≤ width)
    (same : (store.live now).get? key = none ∧ (other.live now).get? key = none ∨
      store.plain key = other.plain key) :
    (store.live now).get? key = none ∧ (other.live now).get? key = none ∨
      ∃ value first second, store.plain key = some (value, first) ∧
        other.plain key = some (value, second) ∧ Nearby width first second := by
  rcases same with dead | same
  · exact Or.inl dead
  · cases held : other.plain key with
    | none =>
        have missing := same.trans held
        rw [← live_plain, ← live_plain, missing, held]
        exact Or.inl ⟨rfl, rfl⟩
    | some content =>
        exact Or.inr ⟨content.1, content.2, content.2, same.trans held, rfl, .refl nonneg _⟩

theorem SameLive.refl (nonneg : 0 ≤ width) (store : Store) : SameLive width now store store :=
  fun _ => sameLive_of_plain nonneg (Or.inr rfl)

theorem plain_of_live (same : (store.live now).get? key = (other.live now).get? key) :
    (store.live now).get? key = none ∧ (other.live now).get? key = none ∨
      store.plain key = other.plain key := by
  cases live : (other.live now).get? key with
  | none => exact Or.inl ⟨same.trans live, rfl⟩
  | some content =>
      have mine := same.trans live
      rw [← live_plain, ExpiringMap.live_eq_some_iff] at live mine
      exact Or.inr (mine.1.trans live.1.symm)

/-- Stores with the same live view agree, whatever else they hold. -/
theorem sameLive_of_live (nonneg : 0 ≤ width)
    (same : ∀ key, (store.live now).get? key = (other.live now).get? key) :
    SameLive width now store other :=
  fun key => sameLive_of_plain nonneg (plain_of_live (same key))

/-- A key shows the same at two readings unless its deadline passes between them. -/
theorem live_of_unsplit (inOrder : first ≤ second)
    (unsplit : ¬ Splits first second (store.deadline key)) :
    (store.live second).get? key = (store.live first).get? key := by
  rw [deadline_eq] at unsplit
  rw [← live_plain, ← live_plain]
  cases held : store.plain key with
  | none => rfl
  | some content =>
      obtain ⟨value, deadline⟩ := content
      rw [held] at unsplit
      cases deadline with
      | none => rw [ExpiringMap.live_some_none, ExpiringMap.live_some_none]
      | some moment =>
          rw [ExpiringMap.live_some_some, ExpiringMap.live_some_some]
          by_cases before : first < moment
          · have later : second < moment := by
              by_contra passed
              exact unsplit ⟨moment, rfl, before, not_lt.mp passed⟩
            rw [if_pos before, if_pos later]
          · rw [if_neg before, if_neg fun later => before (inOrder.trans_lt later)]

/-- A deadline that passes between two readings makes a live key disappear. -/
theorem live_of_splits (splits : Splits first second (store.deadline key)) :
    ∃ value moment, store.plain key = some (value, some moment) ∧ first < moment ∧
      moment ≤ second := by
  obtain ⟨moment, held, before, passed⟩ := splits
  rw [deadline_eq] at held
  obtain ⟨⟨value, deadline⟩, plain, rfl⟩ := Option.bind_eq_some_iff.mp held
  exact ⟨value, moment, plain, before, passed⟩

end Contents

section Lookups

variable (store : Store) (now : Time) (key : Arg)

/-- A lookup leaves the other keys as they are. -/
theorem cells_pop_get : (store.get now key).2.cells.pop key = store.cells.pop key := by
  unfold Store.get
  rcases fetch_cases store now key with ⟨-, fetched⟩ | ⟨entry, present, -, fetched⟩
  · rw [fetched]
    dsimp only
    rw [cells_remove, OrderedDict.pop_of_not_mem (OrderedDict.key_not_mem_pop _ _)]
  · rw [fetched]
    have moved : (store.data.moveToEnd key).filterMap
        (fun _ entry => some entry.content) = store.cells.moveToEnd key :=
      OrderedDict.filterMap_moveToEnd present rfl
    dsimp only
    rw [cells, moved, OrderedDict.pop_moveToEnd]

/-- What a `SET` looks up before it stores: the key, and with `GET` the value. -/
def lookups (opts : SetOptions) (first second : Time) : Bool × Option Arg × Store :=
  let found := store.existsKey first opts.key
  (found.1, if opts.get then found.2.get second opts.key else (none, found.2))

variable {store now key} {opts : SetOptions} {first second : Time}

theorem live_get_later (inOrder : first ≤ second) (other : Arg) :
    ((store.get first key).2.live second).get? other = (store.live second).get? other := by
  rw [← live_plain, ← live_plain]
  exact ((purged_get store first key other).mono inOrder).live_eq

theorem lookups_present :
    (store.lookups opts first second).1 = ((store.live first).get? opts.key).isSome := by
  simp only [lookups, existsKey, get_result, Option.isSome_map]

theorem lookups_previous (inOrder : first ≤ second) :
    (store.lookups opts first second).2.1 =
      if opts.get then ((store.live second).get? opts.key).map Prod.fst else none := by
  simp only [lookups, existsKey]
  split_ifs
  · rw [get_result, live_get_later inOrder]
  · rfl

theorem keeps_lookups : Keeps store (store.lookups opts first second).2.2 := by
  simp only [lookups, existsKey]
  split_ifs
  · exact (keeps_get store first opts.key).trans (keeps_get _ second opts.key)
  · exact keeps_get store first opts.key

theorem cells_pop_lookups :
    (store.lookups opts first second).2.2.cells.pop opts.key = store.cells.pop opts.key := by
  simp only [lookups, existsKey]
  split_ifs
  · rw [cells_pop_get, cells_pop_get]
  · exact cells_pop_get store first opts.key

theorem live_lookups {last : Time} (inOrder : first ≤ second) (later : second ≤ last)
    (other : Arg) : ((store.lookups opts first second).2.2.live last).get? other =
      (store.live last).get? other := by
  simp only [lookups, existsKey]
  split_ifs
  · rw [live_get_later later, live_get_later (inOrder.trans later)]
  · exact live_get_later (inOrder.trans later) other

theorem plain_get_of_dead (dead : (store.live now).get? key = none) :
    (store.get now key).2.plain key = none := by
  unfold Store.get
  rcases fetch_cases store now key with ⟨-, fetched⟩ | ⟨entry, -, live, -⟩
  · rw [fetched]
    exact (plain_remove store key true key).trans (if_pos rfl)
  · rw [dead] at live
    cases live

/-- A `SET` with `GET` removes a key that is no longer live at its second lookup. -/
theorem plain_lookups_of_dead (gets : opts.get = true) (inOrder : first ≤ second)
    (dead : (store.live second).get? opts.key = none) :
    (store.lookups opts first second).2.2.plain opts.key = none := by
  simp only [lookups, existsKey, gets, if_true]
  refine plain_get_of_dead ?_
  rw [live_get_later inOrder, dead]

end Lookups

section Stored

variable {store left right : Store} {key value : Arg} {first second : Option Time}
  {now width : Time} {maxmemory : Nat} {policy : Policy}

theorem put_congr {dict other : OrderedDict Arg Content} (same : dict.pop key = other.pop key)
    (content : Content) : dict.put key content = other.put key content := by
  apply OrderedDict.ext
  rw [OrderedDict.put, OrderedDict.put, OrderedDict.moveToEnd_setItem_entries,
    OrderedDict.moveToEnd_setItem_entries, same]

theorem weight_put (dict : OrderedDict Arg Content) (key : Arg) (content : Content) :
    weight (dict.put key content) = weight (dict.pop key) + weigh (key, content) := by
  rw [weight, OrderedDict.put, OrderedDict.moveToEnd_setItem_entries, List.map_append,
    List.sum_append, weight]
  rfl

/-- A store in which the value was stored under the key, with a deadline of its own. -/
structure Stored (store : Store) (key value : Arg) (deadline : Option Time) (left : Store) :
    Prop where
  keeps : Keeps store left
  cells : left.cells = store.cells.put key (value, deadline)

theorem stored_setCore {opts : SetOptions} {before after : Time} (moment : Time) :
    Stored store opts.key opts.value (opts.ttl.map (moment + ·))
      ((store.lookups opts before after).2.2.setCore moment opts.key opts.value opts.ttl) where
  keeps := keeps_lookups.trans (keeps_setCore _ moment opts.key opts.value opts.ttl)
  cells := by
    rw [cells_setCore]
    exact put_congr cells_pop_lookups _

theorem Stored.plain (stored : Stored store key value first left) (other : Arg) :
    left.plain other = if other = key then some (value, first) else store.plain other := by
  rw [Store.plain, stored.cells, OrderedDict.get?_put]
  rfl

/-- Whether it is over the limit depends on the sizes alone. -/
theorem Stored.sweeps_iff (stored : Stored store key value first left)
    (accounted : Accounted store) : left.Sweeps ↔ store.Overflows key value := by
  have used : left.usedMemory = (store.put key value none).usedMemory := by
    rw [(stored.keeps.accounted accounted).weighed, (accounted.put key value none).weighed,
      stored.cells, cells_put, weight_put, weight_put]
    rfl
  simp only [Overflows, Sweeps, overLimit, used, stored.keeps.maxmemory, stored.keeps.policy]
  rfl

theorem evict_of_not_sweeps (stays : ¬ store.Sweeps) (now : Time) : store.evict now = store := by
  rw [Sweeps, Classical.not_and_iff_not_or_not, Bool.not_eq_true] at stays
  unfold Store.evict
  rw [if_pos (by simpa using stays)]

/-- Two stores with the same value agree when nothing leaves. -/
theorem Stored.sameLive (one : Stored store key value first left)
    (another : Stored store key value second right) (nonneg : 0 ≤ width)
    (near : Nearby width first second) : SameLive width now left right := by
  intro other
  by_cases same : other = key
  · subst same
    refine Or.inr ⟨value, first, second, ?_, ?_, near⟩
    · rw [one.plain, if_pos rfl]
    · rw [another.plain, if_pos rfl]
  · refine sameLive_of_plain nonneg (Or.inr ?_)
    rw [one.plain, another.plain, if_neg same, if_neg same]

theorem victims_put (dict : OrderedDict Arg Content) (limit : Nat) :
    (dict.put key (value, first)).victims limit weigh =
      (dict.put key (value, second)).victims limit weigh := by
  have entries (deadline : Option Time) : (dict.put key (value, deadline)).entries =
      (dict.pop key).entries ++ [(key, value, deadline)] :=
    OrderedDict.moveToEnd_setItem_entries dict key _
  simp only [OrderedDict.victims, entries]
  induction (dict.pop key).entries with
  | nil =>
      rw [List.nil_append, List.nil_append,
        Recency.victims_of_fits (Or.inr (by simp)), Recency.victims_of_fits (Or.inr (by simp))]
  | cons entry rest ih =>
      have fits : Recency.Fits limit weigh (entry :: rest ++ [(key, value, first)]) ↔
          Recency.Fits limit weigh (entry :: rest ++ [(key, value, second)]) := by
        simp [Recency.Fits, weigh]
      rw [List.cons_append, List.cons_append, Recency.victims, Recency.victims]
      simp only [← List.cons_append, fits]
      split_ifs
      · rfl
      · rw [List.map_cons, List.map_cons, ih]

/-- Two stores with the same value agree when both evict at the instant of the comparison and
the value is still there. -/
theorem Stored.sameLive_evict (one : Stored store key value first left)
    (another : Stored store key value second right) (nonneg : 0 ≤ width)
    (near : Nearby width first second) (sound : Sound maxmemory policy store)
    (overflows : store.Overflows key value) (alive : Alive now first) (stays : Alive now second) :
    SameLive width now (left.evict now) (right.evict now) := by
  obtain ⟨isLru, overLimit⟩ := overflows
  have limited : 0 < store.maxmemory := by
    rw [Store.overLimit, Bool.and_eq_true, decide_eq_true_eq] at overLimit
    exact overLimit.1
  have lives {deadline : Option Time} {other : Store}
      (stored : Stored store key value deadline other) (alive : Alive now deadline) :
      (other.evict now).live now =
        ((store.live now).put key (value, deadline)).trim store.maxmemory weigh := by
    rw [live_evict (stored.keeps.scheduled sound.scheduled)
      (stored.keeps.accounted sound.accounted) (stored.keeps.maxmemory ▸ limited)
      (stored.keeps.policy.trans isLru), stored.keeps.maxmemory, Store.live, stored.cells,
      prune_put_of_alive alive]
    rfl
  intro other
  have mine := congrArg (OrderedDict.get? · other) (lives one alive)
  have theirs := congrArg (OrderedDict.get? · other) (lives another stays)
  simp only [OrderedDict.get?_trim, OrderedDict.get?_put] at mine theirs
  rw [@victims_put key value second first] at theirs
  by_cases same : other = key
  · subst same
    rw [if_neg (OrderedDict.not_mem_victims_put _ _ _), if_pos rfl] at mine theirs
    rw [← live_plain, ExpiringMap.live_eq_some_iff] at mine theirs
    exact Or.inr ⟨value, first, second, mine.1, theirs.1, near⟩
  · rw [if_neg same] at mine theirs
    refine sameLive_of_plain nonneg ?_
    cases live : ((right.evict now).live now).get? other with
    | none => exact Or.inl ⟨mine.trans (theirs.symm.trans live), rfl⟩
    | some content =>
        have also := mine.trans (theirs.symm.trans live)
        rw [← live_plain, ExpiringMap.live_eq_some_iff] at live also
        exact Or.inr (also.1.trans live.1.symm)

end Stored

end Store

/-- Some clock shows a reading. -/
def Clock.at (now : Time) : Clock := { Clock.epoch with monotonic := now }

/-- A handler's reply and store, with the readings of the clock that it took. -/
abbrev Timed := (Except Raised Value × Store) × Nat

/-- One instant between the first and the last reading explains a command. -/
def Atomic (readings : Nat → Time) (handler : Handler) (store : Store) (args : List Arg)
    (done : Timed) : Prop :=
  let first := readings 0
  let last := readings (done.2 - 1)
  ∃ clock : Clock, first ≤ clock.monotonic ∧ clock.monotonic ≤ last ∧
    (handler clock store args).1 = done.1.1 ∧
      Store.SameLive (last - first) last (handler clock store args).2 done.1.2

namespace Readings

open Store

variable {readings : Nat → Time} {store : Store} {args : List Arg} {key : Arg}
  {opts : SetOptions} {handler : Handler} {done : Timed} {maxmemory : Nat} {policy : Policy}

theorem atomic_of_eq {taken : Nat} {clock : Clock} (monotone : Monotone readings)
    (same : done.1 = handler clock store args) (reading : clock.monotonic = readings taken)
    (within : taken ≤ done.2 - 1) : Atomic readings handler store args done := by
  refine ⟨clock, ?_, ?_, by rw [same], ?_⟩
  · rw [reading]
    exact monotone (Nat.zero_le taken)
  · rw [reading]
    exact monotone within
  · rw [same]
    exact .refl (sub_nonneg.mpr (monotone (Nat.zero_le _))) _

theorem atomic_congr {other : Handler}
    (same : ∀ clock, handler clock store args = other clock store args)
    (atomic : Atomic readings handler store args done) :
    Atomic readings other store args done := by
  obtain ⟨clock, after, before, reply, contents⟩ := atomic
  refine ⟨clock, after, before, ?_, ?_⟩
  · rw [← same, reply]
  · rw [← same]
    exact contents

section Set

variable (readings store opts) in
/-- The readings a `SET` takes before it stores. -/
def lookupReadings : Nat :=
  store.tests opts.key +
    if opts.get then (store.get (readings 0) opts.key).2.tests opts.key else 0

/-- A key without a deadline is found at any time. -/
theorem get_of_no_tests (none : store.tests key = 0) (first second : Time) :
    store.get first key = store.get second key := by
  have timeless : store.deadline key = Option.none := by
    rw [Store.tests] at none
    split_ifs at none with held
    exact Option.not_isSome_iff_eq_none.mp held
  unfold Store.get Store.fetch
  unfold Store.deadline at timeless
  cases found : store.data.get? key with
  | none => rfl
  | some entry =>
      rw [found, Option.bind_some] at timeless
      simp [Entry.isExpired, timeless]

theorem lookups_eq : store.lookups opts (readings 0) (readings (store.tests opts.key)) =
    store.lookups opts (readings 0) (readings (lookupReadings readings store opts - 1)) := by
  unfold Store.lookups lookupReadings
  split_ifs with gets
  · refine congrArg (Prod.mk _) ?_
    by_cases none : (store.get (readings 0) opts.key).2.tests opts.key = 0
    · exact get_of_no_tests none _ _
    · have one : (store.get (readings 0) opts.key).2.tests opts.key = 1 := by
        unfold Store.tests at none ⊢
        split_ifs at none ⊢
        · rfl
        · omega
      rw [one, Nat.add_sub_cancel]
  · rfl

theorem cmdSet_eq (parsed : parseSet args = .ok opts) :
    let taken := lookupReadings readings store opts
    let looked := store.lookups opts (readings 0) (readings (taken - 1))
    let stored := looked.2.2.setCore (readings taken) opts.key opts.value opts.ttl
    cmdSet readings store args =
      if opts.blocked looked.1 then ((.ok (.ofOption looked.2.1), looked.2.2), taken)
      else
        ((.ok (if opts.get then .ofOption looked.2.1 else OK),
            stored.evict (readings (taken + given opts.ttl))),
          taken + given opts.ttl + if stored.Sweeps then 1 else 0) := by
  obtain ⟨options, rfl⟩ := parseSet_args parsed
  dsimp only
  rw [← lookups_eq]
  unfold cmdSet
  simp only [List.length_cons, parsed, existsKey_eq, get_eq, set_eq]
  rw [if_neg (by omega)]
  unfold Store.lookups lookupReadings
  cases opts.get <;>
    simp only [Bool.false_eq_true, if_true, if_false, Nat.zero_add, Nat.add_zero]
  all_goals rfl

theorem cmdSet_at (parsed : parseSet args = .ok opts) (clock : Clock) :
    let looked := store.lookups opts clock.monotonic clock.monotonic
    let stored := looked.2.2.setCore clock.monotonic opts.key opts.value opts.ttl
    MiniCache.cmdSet clock store args =
      if opts.blocked looked.1 then (.ok (.ofOption looked.2.1), looked.2.2)
      else
        (.ok (if opts.get then .ofOption looked.2.1 else OK),
          stored.evict clock.monotonic) := by
  obtain ⟨options, rfl⟩ := parseSet_args parsed
  unfold MiniCache.cmdSet
  simp only [List.length_cons, parsed]
  rw [if_neg (by omega)]
  rfl

variable (readings store opts) in
/-- Whether `NX` or `XX` holds the `SET` back at its first reading. -/
def heldBack : Bool := opts.blocked ((store.live (readings 0)).get? opts.key).isSome

/-- An instant explains a `SET` when its lookups come out the same there, and when it is that
of the sweep if there is one. -/
theorem atomic_set (monotone : Monotone readings) (sound : Sound maxmemory policy store)
    (parsed : parseSet args = .ok opts) {instant : Time} :
    let taken := lookupReadings readings store opts
    let last := readings ((cmdSet readings store args).2 - 1)
    readings 0 ≤ instant → instant ≤ last →
    opts.blocked ((store.live instant).get? opts.key).isSome = heldBack readings store opts →
    (opts.get = true → (store.live instant).get? opts.key =
      (store.live (readings (taken - 1))).get? opts.key) →
    (heldBack readings store opts = false → store.Overflows opts.key opts.value →
      instant = last ∧ ∀ ttl ∈ opts.ttl, last < readings taken + ttl) →
    Atomic readings MiniCache.cmdSet store args (cmdSet readings store args) := by
  intro taken last after before sameBlocked sameValue evicts
  have done := @cmdSet_eq readings store args opts parsed
  have ideal := @cmdSet_at store args opts parsed (Clock.at instant)
  dsimp only at done ideal
  have ordered : readings 0 ≤ readings (taken - 1) := monotone (Nat.zero_le _)
  have presentIdeal := @lookups_present store opts instant instant
  have presentDone := @lookups_present store opts (readings 0) (readings (taken - 1))
  have previous : (store.lookups opts instant instant).2.1 =
      (store.lookups opts (readings 0) (readings (taken - 1))).2.1 := by
    rw [lookups_previous le_rfl, lookups_previous ordered]
    split_ifs with gets
    · rw [sameValue gets]
    · rfl
  have nonneg : 0 ≤ last - readings 0 := sub_nonneg.mpr (after.trans before)
  refine ⟨Clock.at instant, after, before, ?_⟩
  rw [ideal, show (Clock.at instant).monotonic = instant from rfl, presentIdeal, sameBlocked]
  rw [presentDone] at done
  cases held : heldBack readings store opts with
  | true =>
      have answered : cmdSet readings store args = ((.ok (.ofOption
          (store.lookups opts (readings 0) (readings (taken - 1))).2.1),
          (store.lookups opts (readings 0) (readings (taken - 1))).2.2), taken) :=
        done.trans (if_pos held)
      have lastEq : last = readings (taken - 1) := by
        simp only [last, answered]
      rw [answered, if_pos rfl]
      refine ⟨by rw [previous], sameLive_of_live (lastEq ▸ nonneg) fun other => ?_⟩
      rw [live_lookups le_rfl (lastEq ▸ before), live_lookups ordered le_rfl]
  | false =>
      have stored := @stored_setCore store opts (readings 0) (readings (taken - 1)) (readings taken)
      have storedIdeal := @stored_setCore store opts instant instant instant
      have answered := done.trans (if_neg (by rw [show opts.blocked _ = _ from held]; simp))
      have readingsTaken : (cmdSet readings store args).2 = taken + given opts.ttl +
          if store.Overflows opts.key opts.value then 1 else 0 := by
        rw [answered]
        exact congrArg (taken + given opts.ttl + ·)
          (if_congr (stored.sweeps_iff sound.accounted) rfl rfl)
      have near : Nearby (last - readings 0) (opts.ttl.map (instant + ·))
          (opts.ttl.map (readings taken + ·)) := by
        cases lifetime : opts.ttl with
        | none => trivial
        | some ttl =>
            have later : readings taken ≤ last := by
              refine monotone ?_
              rw [readingsTaken, lifetime, given, Option.isSome_some, if_pos rfl]
              omega
            have start : readings 0 ≤ readings taken := monotone (Nat.zero_le _)
            refine nearby_map ?_ (some ttl)
            rw [abs_le]
            constructor <;> linarith
      rw [if_neg Bool.false_ne_true]
      refine ⟨by rw [answered, previous], ?_⟩
      change SameLive (last - readings 0) last _ _
      rw [answered]
      by_cases overflows : store.Overflows opts.key opts.value
      · obtain ⟨isLast, fresh⟩ := evicts held overflows
        have sweepsLast : readings (taken + given opts.ttl) = last := by
          simp only [last, readingsTaken, if_pos overflows, Nat.add_sub_cancel]
        rw [isLast, show readings (lookupReadings readings store opts + given opts.ttl) = last from
          sweepsLast]
        rw [isLast] at storedIdeal near
        refine storedIdeal.sameLive_evict stored nonneg near sound overflows ?_ ?_
        · intro deadline isDeadline
          obtain ⟨ttl, isTtl, rfl⟩ := Option.map_eq_some_iff.mp isDeadline
          exact lt_add_of_pos_right last ((parseSet_ok parsed).2 ttl isTtl).positive
        · intro deadline isDeadline
          obtain ⟨ttl, isTtl, rfl⟩ := Option.map_eq_some_iff.mp isDeadline
          exact fresh ttl isTtl
      · rw [evict_of_not_sweeps (mt (stored.sweeps_iff sound.accounted).mp overflows),
          evict_of_not_sweeps (mt (storedIdeal.sweeps_iff sound.accounted).mp overflows)]
        exact storedIdeal.sameLive stored nonneg near

variable (readings store opts) in
/-- No deadline gets between the readings of a `SET` that go by it.  With `GET`, `NX` and `XX`
the key is tested twice, and between the tests only a value that lasts no longer may be lost.
When the value takes the store over its limit, what the command found and what it stored
must still hold at the sweep. -/
structure Together : Prop where
  tested : opts.get = true → (opts.nx || opts.xx) = true →
    ∀ deadline ∈ store.deadline opts.key, readings 0 < deadline → deadline ≤ readings 1 →
      ¬ store.Overflows opts.key opts.value ∧ opts.nx = true ∧
        ∃ ttl ∈ opts.ttl, deadline + ttl ≤ readings 1
  swept : heldBack readings store opts = false → store.Overflows opts.key opts.value →
    (∀ ttl ∈ opts.ttl, readings (lookupReadings readings store opts + given opts.ttl) <
      readings (lookupReadings readings store opts) + ttl) ∧
    ((opts.xx || opts.get) = true → ¬ Splits (readings (lookupReadings readings store opts - 1))
      (readings (lookupReadings readings store opts + given opts.ttl)) (store.deadline opts.key))

section Alive

variable {value : Arg} {deadline : Time} (held : store.plain opts.key = some (value, some deadline))
  (alive : readings 0 < deadline)

include held alive

theorem live_first : (store.live (readings 0)).get? opts.key = some (value, some deadline) := by
  rw [← live_plain, held, ExpiringMap.live_some_some, if_pos alive]

/-- A key that is live and has a deadline is tested by every lookup. -/
theorem lookupReadings_of_alive :
    lookupReadings readings store opts = if opts.get then 2 else 1 := by
  have kept : (store.get (readings 0) opts.key).2.plain opts.key = store.plain opts.key := by
    refine (purged_get store (readings 0) opts.key opts.key).eq_of_live ?_
    rw [live_plain, live_first held alive, held]
  unfold lookupReadings Store.tests
  rw [deadline_eq, deadline_eq, kept, held]
  cases opts.get <;> rfl

theorem heldBack_of_alive : heldBack readings store opts = opts.nx := by
  rw [heldBack, live_first held alive]
  simp [SetOptions.blocked]

end Alive

/-- The reading of the sweep is the last one. -/
theorem last_of_overflows (sound : Sound maxmemory policy store)
    (parsed : parseSet args = .ok opts) (stores : heldBack readings store opts = false)
    (overflows : store.Overflows opts.key opts.value) :
    (cmdSet readings store args).2 - 1 =
      lookupReadings readings store opts + given opts.ttl := by
  have done := @cmdSet_eq readings store args opts parsed
  dsimp only at done
  rw [lookups_present, if_neg (by rw [show opts.blocked _ = _ from stores]; simp)] at done
  rw [done]
  dsimp only
  rw [if_pos ((stored_setCore _).sweeps_iff sound.accounted |>.mpr overflows),
    Nat.add_sub_cancel]

theorem taken_le_last (parsed : parseSet args = .ok opts) :
    lookupReadings readings store opts - 1 ≤ (cmdSet readings store args).2 - 1 := by
  have done := @cmdSet_eq readings store args opts parsed
  dsimp only at done
  rw [done]
  split_ifs <;> dsimp only <;> omega

/-- Where a value that `NX` refused would have lasted no longer, nothing was lost. -/
theorem atomic_of_lapse (sound : Sound maxmemory policy store)
    (parsed : parseSet args = .ok opts) {value : Arg} {deadline ttl : Time}
    (held : store.plain opts.key = some (value, some deadline))
    (alive : readings 0 < deadline) (passed : deadline ≤ readings 1) (gets : opts.get = true)
    (onlyNew : opts.nx = true) (fits : ¬ store.Overflows opts.key opts.value)
    (lifetime : opts.ttl = some ttl) (lapses : deadline + ttl ≤ readings 1) :
    Atomic readings MiniCache.cmdSet store args (cmdSet readings store args) := by
  have done := @cmdSet_eq readings store args opts parsed
  have ideal := @cmdSet_at store args opts parsed (Clock.at deadline)
  dsimp only at done ideal
  have refused : opts.blocked ((store.live (readings 0)).get? opts.key).isSome = true :=
    (heldBack_of_alive held alive).trans onlyNew
  rw [lookupReadings_of_alive held alive, gets, if_pos rfl, lookups_present, if_pos refused] at done
  have gone (now : Time) (later : deadline ≤ now) : (store.live now).get? opts.key = none := by
    rw [← live_plain, held, ExpiringMap.live_some_some, if_neg (not_lt.mpr later)]
  have ordered : readings 0 ≤ readings 1 := alive.le.trans passed
  have free : opts.blocked false = false := by
    simpa [SetOptions.blocked, onlyNew] using (parseSet_ok parsed).1
  rw [lookups_present, show (Clock.at deadline).monotonic = deadline from rfl, gone deadline le_rfl,
    if_neg (by simp [free])] at ideal
  have stored := @stored_setCore store opts deadline deadline deadline
  rw [evict_of_not_sweeps (mt (stored.sweeps_iff sound.accounted).mp fits)] at ideal
  refine ⟨Clock.at deadline, alive.le, ?_, ?_, fun other => ?_⟩
  · rw [done]
    exact passed
  · rw [ideal, done, if_pos gets, lookups_previous le_rfl, lookups_previous ordered,
      gone deadline le_rfl, gone (readings 1) passed]
  · rw [ideal, done]
    have untouched := @live_lookups store opts (readings 0) (readings 1) (readings 1) ordered
      le_rfl other
    refine sameLive_of_plain (sub_nonneg.mpr ordered) (plain_of_live ?_)
    refine Eq.trans ?_ untouched.symm
    rw [← live_plain, ← live_plain, stored.plain]
    split_ifs with same
    · rw [same, held, lifetime, Option.map_some, ExpiringMap.live_some_some,
        ExpiringMap.live_some_some]
      exact (if_neg (not_lt.mpr lapses)).trans (if_neg (not_lt.mpr passed)).symm
    · rfl

/-- A `SET` whose readings go together is explained by one instant. -/
theorem atomic_cmdSet (monotone : Monotone readings) (sound : Sound maxmemory policy store)
    (together : ∀ opts, parseSet args = .ok opts → Together readings store opts) :
    Atomic readings MiniCache.cmdSet store args (cmdSet readings store args) := by
  by_cases short : args.length < 2
  · have same : cmdSet readings store args = ((.error .wrongArity, store), 0) := if_pos short
    refine @atomic_of_eq readings store args _ _ 0 (Clock.at (readings 0)) monotone ?_ rfl ?_
    · rw [same, MiniCache.cmdSet, if_pos short]
    · exact Nat.zero_le _
  cases parsed : parseSet args with
  | error raised =>
      refine @atomic_of_eq readings store args _ _ 0 (Clock.at (readings 0)) monotone ?_ rfl ?_
      · simp only [cmdSet, MiniCache.cmdSet, if_neg short, parsed]
      · exact Nat.zero_le _
  | ok opts =>
      have whole := together opts parsed
      have explained := @atomic_set readings store args opts maxmemory policy monotone sound parsed
      dsimp only at explained
      have within := monotone (@taken_le_last readings store args opts parsed)
      have start (taken : Nat) : readings 0 ≤ readings taken := monotone (Nat.zero_le taken)
      have atSweep (stores : heldBack readings store opts = false)
          (overflows : store.Overflows opts.key opts.value) :=
        congrArg readings (last_of_overflows sound parsed stores overflows)
      by_cases splits : Splits (readings 0) (readings ((cmdSet readings store args).2 - 1))
        (store.deadline opts.key)
      · obtain ⟨value, deadline, held, alive, passed⟩ := live_of_splits splits
        have taken := lookupReadings_of_alive held alive
        have blockedFirst := heldBack_of_alive held alive
        have first := live_first held alive
        have isDeadline : deadline ∈ store.deadline opts.key := by
          rw [deadline_eq, held]
          rfl
        by_cases lost : opts.get = true ∧ (opts.nx || opts.xx) = true ∧ deadline ≤ readings 1
        · obtain ⟨gets, tests, early⟩ := lost
          obtain ⟨fits, onlyNew, ttl, lifetime, lapses⟩ :=
            whole.tested gets tests deadline isDeadline alive early
          exact atomic_of_lapse sound parsed held alive early gets onlyNew fits lifetime lapses
        -- what the last lookup finds is what the first one found, where that counts
        · have agrees : opts.blocked ((store.live
              (readings (lookupReadings readings store opts - 1))).get? opts.key).isSome =
                heldBack readings store opts := by
            rw [taken]
            cases gets : opts.get with
            | false => rfl
            | true =>
                cases tests : opts.nx || opts.xx with
                | false =>
                    obtain ⟨noNx, noXx⟩ := Bool.or_eq_false_iff.mp tests
                    simp [heldBack, SetOptions.blocked, noNx, noXx]
                | true =>
                    have stays : ¬ Splits (readings 0) (readings 1) (store.deadline opts.key) := by
                      rintro ⟨moment, isMoment, -, early⟩
                      rw [Option.mem_unique isMoment isDeadline] at early
                      exact lost ⟨gets, tests, early⟩
                    rw [if_pos rfl, heldBack, live_of_unsplit (start 1) stays]
          by_cases sweeps : heldBack readings store opts = false ∧
              store.Overflows opts.key opts.value
          · obtain ⟨stores, overflows⟩ := sweeps
            obtain ⟨fresh, found⟩ := whole.swept stores overflows
            rw [← atSweep stores overflows] at fresh found
            refine explained (start _) le_rfl ?_ ?_ fun _ _ => ⟨rfl, fresh⟩
            · cases looks : opts.xx || opts.get with
              | false =>
                  obtain ⟨noXx, -⟩ := Bool.or_eq_false_iff.mp looks
                  rw [blockedFirst] at stores ⊢
                  simp [SetOptions.blocked, stores, noXx]
              | true => rw [← agrees, live_of_unsplit within (found looks)]
            · intro gets
              exact live_of_unsplit within (found (by simp [gets]))
          · exact explained (start _) within agrees (fun _ => rfl)
              fun stores overflows => absurd ⟨stores, overflows⟩ sweeps
      · have steady : (store.live (readings ((cmdSet readings store args).2 - 1))).get? opts.key =
            (store.live (readings 0)).get? opts.key := live_of_unsplit (start _) splits
        refine explained (start _) le_rfl ?_ (fun _ => ?_) fun stores overflows => ⟨rfl, ?_⟩
        · rw [steady, heldBack]
        · rw [steady]
          refine (live_of_unsplit (start _) ?_).symm
          rintro ⟨moment, isMoment, alive, passed⟩
          exact splits ⟨moment, isMoment, alive, passed.trans within⟩
        · rw [atSweep stores overflows]
          exact (whole.swept stores overflows).1

/-- A `SET` with `GET` that loses its key between two tests has no such instant, unless a
value that `NX` refused would have been gone already. -/
theorem tested_of_atomic (sound : Sound maxmemory policy store)
    (parsed : parseSet args = .ok opts)
    (atomic : Atomic readings MiniCache.cmdSet store args (cmdSet readings store args))
    (gets : opts.get = true) (tests : (opts.nx || opts.xx) = true) {deadline : Time}
    (isDeadline : deadline ∈ store.deadline opts.key) (alive : readings 0 < deadline)
    (passed : deadline ≤ readings 1) (fits : ¬ store.Overflows opts.key opts.value) :
    opts.nx = true ∧ ∃ ttl ∈ opts.ttl, deadline + ttl ≤ readings 1 := by
  obtain ⟨value, moment, held, -, -⟩ :=
    live_of_splits (⟨deadline, isDeadline, alive, passed⟩ : Splits (readings 0) (readings 1) _)
  obtain rfl : moment = deadline := by
    rw [deadline_eq, held] at isDeadline
    exact Option.some.inj isDeadline
  have gone (now : Time) (later : moment ≤ now) : (store.live now).get? opts.key = none := by
    rw [← live_plain, held, ExpiringMap.live_some_some, if_neg (not_lt.mpr later)]
  have ordered : readings 0 ≤ readings 1 := alive.le.trans passed
  have done := @cmdSet_eq readings store args opts parsed
  dsimp only at done
  rw [lookupReadings_of_alive held alive, gets, if_pos rfl, if_pos rfl, lookups_present] at done
  have stored := @stored_setCore store opts (readings 0) (readings 1) (readings 2)
  have nothing : (store.lookups opts (readings 0) (readings (2 - 1))).2.1 = none := by
    rw [lookups_previous (show readings 0 ≤ readings (2 - 1) from ordered)]
    simp [gets, gone (readings 1) passed]
  have answered : (cmdSet readings store args).1.1 = .ok .null := by
    rw [done]
    split_ifs <;> exact congrArg (Except.ok ∘ Value.ofOption) nothing
  obtain ⟨clock, -, -, reply, contents⟩ := atomic
  have ideal := @cmdSet_at store args opts parsed clock
  dsimp only at ideal
  rw [lookups_present] at ideal
  -- the instant is past the deadline, or the reply would be the value
  have late : moment ≤ clock.monotonic := by
    by_contra before
    have found : (store.lookups opts clock.monotonic clock.monotonic).2.1 = some value := by
      rw [lookups_previous le_rfl, if_pos gets, ← live_plain, held, ExpiringMap.live_some_some,
        if_pos (not_le.mp before)]
      rfl
    rw [answered, ideal, found, if_pos gets] at reply
    split_ifs at reply <;> cases reply
  rw [gone _ late] at ideal
  have atKey := contents opts.key
  have refused : opts.blocked ((store.live (readings 0)).get? opts.key).isSome = opts.nx :=
    heldBack_of_alive held alive
  rw [refused] at done
  cases onlyNew : opts.nx with
  | true =>
      refine ⟨rfl, ?_⟩
      have free : opts.blocked false = false := by
        simpa [SetOptions.blocked, onlyNew] using (parseSet_ok parsed).1
      have storedIdeal := @stored_setCore store opts clock.monotonic clock.monotonic
        clock.monotonic
      rw [if_neg (by simp [free]),
        evict_of_not_sweeps (mt (storedIdeal.sweeps_iff sound.accounted).mp fits)] at ideal
      rw [if_pos onlyNew] at done
      rw [ideal, done] at atKey
      have removed : (store.lookups opts (readings 0) (readings (2 - 1))).2.2.plain opts.key =
          none :=
        plain_lookups_of_dead gets ordered (gone (readings 1) passed)
      rcases atKey with ⟨dead, -⟩ | ⟨_, _, _, -, kept, -⟩
      · rw [← live_plain, storedIdeal.plain, if_pos rfl] at dead
        cases lifetime : opts.ttl with
        | none => simp [lifetime] at dead
        | some ttl =>
            rw [lifetime, Option.map_some, ExpiringMap.live_some_some] at dead
            split_ifs at dead with lasts
            have lapsed : clock.monotonic + ttl ≤ readings 1 := not_lt.mp lasts
            exact ⟨ttl, rfl, by linarith⟩
      · rw [removed] at kept
        cases kept
  | false =>
      exfalso
      have onlyOld : opts.xx = true := by simpa [onlyNew] using tests
      rw [if_pos (by simp [SetOptions.blocked, onlyOld])] at ideal
      have fitting := mt (stored.sweeps_iff sound.accounted).mp fits
      rw [if_neg (by simp [onlyNew]), evict_of_not_sweeps fitting, if_neg fitting] at done
      rw [ideal, done] at atKey
      have present := stored.plain opts.key
      rw [if_pos rfl] at present
      rcases atKey with ⟨-, dead⟩ | ⟨_, _, _, kept, -, -⟩
      · rw [← live_plain] at dead
        replace dead := (congrArg (ExpiringMap.live _) present).symm.trans dead
        cases lifetime : opts.ttl with
        | none => simp [lifetime] at dead
        | some ttl =>
            have positive := ((parseSet_ok parsed).2 ttl lifetime).positive
            rw [lifetime, Option.map_some, ExpiringMap.live_some_some] at dead
            refine absurd dead ?_
            rw [if_pos]
            · simp
            · exact lt_add_of_pos_right _ positive
      · rw [plain_lookups_of_dead gets le_rfl (gone _ late)] at kept
        cases kept

end Set

section Lookup

theorem cmdGet_eq : (cmdGet readings store args).1 =
    MiniCache.cmdGet (Clock.at (readings 0)) store args := by
  unfold cmdGet MiniCache.cmdGet
  rcases args with _ | ⟨key, _ | ⟨other, rest⟩⟩
  · rfl
  · simp only [@lookup_eq readings store key 0 (Clock.at (readings 0)) rfl]
  · rfl

theorem cmdPersist_eq : (cmdPersist readings store args).1 =
    MiniCache.cmdPersist (Clock.at (readings 0)) store args := by
  unfold cmdPersist MiniCache.cmdPersist
  rcases args with _ | ⟨key, _ | ⟨other, rest⟩⟩
  · rfl
  · simp only [persist_eq]
    rfl
  · rfl

/-- Deleting one key reads the clock once. -/
theorem cmdDel_eq (single : args.length ≤ 1) : (cmdDel readings store args).1 =
    MiniCache.cmdDel (Clock.at (readings 0)) store args := by
  unfold cmdDel MiniCache.cmdDel
  rcases args with _ | ⟨key, _ | ⟨other, rest⟩⟩
  · rfl
  · simp only [delLoop, MiniCache.delLoop, delete_eq]
    rfl
  · exact absurd single (by simp)

/-- Testing one key reads the clock once. -/
theorem cmdExists_eq (single : args.length ≤ 1) : (cmdExists readings store args).1 =
    MiniCache.cmdExists (Clock.at (readings 0)) store args := by
  unfold cmdExists MiniCache.cmdExists
  rcases args with _ | ⟨key, _ | ⟨other, rest⟩⟩
  · rfl
  · simp only [existsLoop, MiniCache.existsLoop,
      @lookup_eq readings store key 0 (Clock.at (readings 0)) rfl]
    rfl
  · exact absurd single (by simp)

end Lookup

section Counter

/-- A key that shows the same at two readings is fetched the same. -/
theorem fetch_of_unsplit {first second : Time} (inOrder : first ≤ second)
    (unsplit : ¬ Splits first second (store.deadline key)) :
    store.fetch second key = store.fetch first key := by
  have same := live_of_unsplit inOrder unsplit
  rcases Store.fetch_cases store first key with ⟨dead, one⟩ | ⟨entry, present, live, one⟩ <;>
    rcases Store.fetch_cases store second key with ⟨gone, other⟩ | ⟨found, there, lives, other⟩
  · rw [one, other]
  · rw [same, dead] at lives
    cases lives
  · rw [same, live] at gone
    cases gone
  · rw [one, other, Option.some.inj (present.symm.trans there)]

theorem tests_le_one (store : Store) (key : Arg) : store.tests key ≤ 1 := by
  unfold Store.tests
  split_ifs <;> omega

/-- A number that takes the store over its limit is stored in one go: the deadline it keeps
does not pass before the sweep. -/
def Counted (readings : Nat → Time) (store : Store) (key : Arg) (delta : Int) : Prop :=
  ∀ new, Store.incremented (((store.live (readings 0)).get? key).map Prod.fst) delta = .ok new →
    (store.incrCore (readings 0) key new).Sweeps →
    ¬ Splits (readings 0) (readings 1) (store.deadline key)

theorem atomic_runIncr (monotone : Monotone readings) {delta : Int}
    (counted : Counted readings store key delta) :
    Atomic readings (fun clock store _ => MiniCache.runIncr clock store key delta) store args
      (runIncr readings store key delta) := by
  have read (now : Time) : (Clock.at now).monotonic = now := rfl
  rcases @incr_eq readings store key 0 delta with ⟨message, failed, done⟩ | ⟨new, counts, done⟩
  · refine @atomic_of_eq readings store args _ _ 0 (Clock.at (readings 0)) monotone ?_ rfl ?_
    · rcases Store.incr_cases store (readings 0) key delta with
        ⟨other, fails, one⟩ | ⟨other, succeeds, -⟩
      · rw [failed] at fails
        obtain rfl := Except.error.inj fails
        simp only [runIncr, done, MiniCache.runIncr, read, one]
      · rw [failed] at succeeds
        cases succeeds
    · exact Nat.zero_le _
  · simp only [Nat.zero_add] at done
    have reply (now : Time)
        (same : Store.incremented (((store.live now).get? key).map Prod.fst) delta = .ok new) :
        MiniCache.runIncr (Clock.at now) store key delta =
          (.ok (.int new), (store.incrCore now key new).evict now) := by
      rcases Store.incr_cases store now key delta with ⟨_, fails, -⟩ | ⟨other, succeeds, one⟩
      · rw [same] at fails
        cases fails
      · rw [same] at succeeds
        obtain rfl := Except.ok.inj succeeds
        simp only [MiniCache.runIncr, read, one]
    by_cases sweeps : (store.incrCore (readings 0) key new).Sweeps
    · have unsplit := counted new counts sweeps
      have tests := tests_le_one store key
      refine @atomic_of_eq readings store args _ _ (store.tests key)
        (Clock.at (readings (store.tests key))) monotone ?_ rfl ?_
      · have within : readings 0 ≤ readings (store.tests key) := monotone (Nat.zero_le _)
        have still : ¬ Splits (readings 0) (readings (store.tests key)) (store.deadline key) := by
          rintro ⟨moment, isMoment, before, passed⟩
          exact unsplit ⟨moment, isMoment, before, passed.trans (monotone tests)⟩
        have same := live_of_unsplit within still
        rw [reply _ (by rw [same, counts])]
        simp only [runIncr, done, Store.incrCore, same, fetch_of_unsplit within still]
      · simp only [runIncr, done, if_pos sweeps]
        omega
    · refine @atomic_of_eq readings store args _ _ 0 (Clock.at (readings 0)) monotone ?_ rfl ?_
      · rw [reply _ counts]
        simp only [runIncr, done, evict_of_not_sweeps sweeps]
      · exact Nat.zero_le _

/-- The key and the step of a counter command. -/
def stepOf : Command → List Arg → Option (Arg × Int)
  | .incr, [key] => some (key, 1)
  | .decr, [key] => some (key, -1)
  | .incrby, [key, amount] => (parseInt amount).toOption.map fun delta => (key, 1 * delta)
  | .decrby, [key, amount] => (parseInt amount).toOption.map fun delta => (key, -1 * delta)
  | _, _ => none

/-- A command that fails before it reads the clock is explained by any instant. -/
theorem atomic_of_unread (monotone : Monotone readings) {outcome : Except Raised Value}
    (same : handler (Clock.at (readings 0)) store args = (outcome, store))
    (unread : done = ((outcome, store), 0)) : Atomic readings handler store args done := by
  refine @atomic_of_eq readings store args _ _ 0 (Clock.at (readings 0)) monotone ?_ rfl ?_
  · rw [unread, same]
  · exact Nat.zero_le _

theorem atomic_counter (monotone : Monotone readings) {delta : Int}
    (counted : ∀ key, args = [key] → Counted readings store key delta) :
    Atomic readings (MiniCache.counter delta) store args (counter readings store args delta) := by
  rcases args with _ | ⟨key, _ | ⟨other, rest⟩⟩
  · exact atomic_of_unread monotone rfl rfl
  · exact @atomic_runIncr readings store [key] key monotone delta (counted key rfl)
  · exact atomic_of_unread monotone rfl rfl

theorem atomic_counterBy (monotone : Monotone readings) {sign : Int}
    (counted : ∀ key amount delta, args = [key, amount] → parseInt amount = .ok delta →
      Counted readings store key (sign * delta)) :
    Atomic readings (MiniCache.counterBy sign) store args
      (counterBy readings store args sign) := by
  rcases args with _ | ⟨key, _ | ⟨amount, _ | ⟨other, rest⟩⟩⟩
  · exact atomic_of_unread monotone rfl rfl
  · exact atomic_of_unread monotone rfl rfl
  · cases parsed : parseInt amount with
    | error raised =>
        refine @atomic_of_unread _ _ _ _ _ monotone (.error raised) ?_ ?_
        · simp only [MiniCache.counterBy, parsed]
        · simp only [counterBy, parsed]
    | ok delta =>
        have explained := @atomic_runIncr readings store [key, amount] key monotone (sign * delta)
          (counted key amount delta rfl parsed)
        have taken : counterBy readings store [key, amount] sign =
            runIncr readings store key (sign * delta) := by
          simp only [counterBy, parsed]
        rw [taken]
        refine atomic_congr (fun clock => ?_) explained
        simp only [MiniCache.counterBy, parsed]
  · exact atomic_of_unread monotone rfl rfl

end Counter

section Lifetime

/-- A new lifetime is that of the first reading, up to the time it took. -/
theorem atomic_lifetime (monotone : Monotone readings) {perSecond : Time} :
    Atomic readings (MiniCache.lifetime perSecond) store args
      (lifetime readings store args perSecond) := by
  rcases args with _ | ⟨key, _ | ⟨amount, _ | ⟨other, rest⟩⟩⟩
  · exact atomic_of_unread monotone rfl rfl
  · exact atomic_of_unread monotone rfl rfl
  · cases parsed : parseInt amount with
    | error raised =>
        refine @atomic_of_unread _ _ _ _ _ monotone (.error raised) ?_ ?_
        · simp only [MiniCache.lifetime, parsed]
        · simp only [lifetime, parsed]
    | ok number =>
        have ideal : MiniCache.lifetime perSecond (Clock.at (readings 0)) store [key, amount] =
            (.ok (.bool (store.expire (readings 0) key (number / perSecond)).1),
              (store.expire (readings 0) key (number / perSecond)).2) := by
          simp only [MiniCache.lifetime, parsed]
          rfl
        have taken : lifetime readings store [key, amount] perSecond =
            ((.ok (.bool (expire readings store key 0 (number / perSecond)).1.1),
              (expire readings store key 0 (number / perSecond)).1.2),
              (expire readings store key 0 (number / perSecond)).2) := by
          simp only [lifetime, parsed]
        rw [taken]
        rcases Store.fetch_cases store (readings 0) key with
          ⟨dead, fetched⟩ | ⟨entry, present, live, fetched⟩
        · refine @atomic_of_eq readings store _ _ _ 0 (Clock.at (readings 0)) monotone ?_ rfl ?_
          · rw [ideal]
            simp only [expire, fetch_eq, Store.expire, fetched]
          · exact Nat.zero_le _
        · have within : readings 0 ≤ readings (0 + store.tests key) := monotone (Nat.zero_le _)
          have done : expire readings store key 0 (number / perSecond) =
              ((true, { store with
                data := store.data.setItem key { entry with
                  expireAt := some (readings (0 + store.tests key) + number / perSecond) }
                }.schedule key (readings (0 + store.tests key) + number / perSecond)),
              0 + store.tests key + 1) := by
            simp only [expire, fetch_eq, fetched]
          rw [done]
          refine ⟨Clock.at (readings 0), le_rfl, within, ?_, fun other => ?_⟩
          · rw [ideal, Store.expire, fetched]
          · rw [ideal, Store.expire, fetched]
            dsimp only
            rw [Nat.add_sub_cancel]
            have plain (expireAt : Time) : ({ store with
                  data := store.data.setItem key
                    { entry with expireAt := some expireAt } }.schedule key expireAt).plain other =
                if other = key then some (entry.value, some expireAt) else store.plain other := by
              rw [plain_eq, Store.schedule_data, OrderedDict.get?_setItem]
              split_ifs
              · rfl
              · rw [plain_eq]
            by_cases same : other = key
            · refine Or.inr ⟨entry.value, _, _, (plain _).trans (if_pos same),
                (plain _).trans (if_pos same), ?_⟩
              refine nearby_map ?_ (some (number / perSecond))
              rw [abs_sub_comm]
              exact (abs_of_nonneg (sub_nonneg.mpr within)).le
            · refine sameLive_of_plain (sub_nonneg.mpr within) (Or.inr ?_)
              rw [plain, plain, if_neg same, if_neg same]
  · exact atomic_of_unread monotone rfl rfl

/-- The reply of `TTL` at a reading. -/
def leftOf (now : Time) (content : Option Content) : Int :=
  match Store.remaining now content with
  | none => -2
  | some left => if left = -1 then -1 else ⌈left⌉

theorem cmdTtl_at (now : Time) : MiniCache.cmdTtl (Clock.at now) store [key] =
    (.ok (.int (leftOf now ((store.live now).get? key))), (store.fetch now key).2) := by
  unfold MiniCache.cmdTtl leftOf
  rw [← Store.ttl_result, ← Store.ttl_store]
  rfl

theorem leftOf_of_passed {value : Arg} {deadline now : Time} (passed : deadline ≤ now) :
    leftOf now (some (value, some deadline)) = 0 := by
  have none : max 0 (deadline - now) = 0 := max_eq_left (sub_nonpos.mpr passed)
  simp [leftOf, Store.remaining, none]

/-- A time to live is never 0 at the instant at which the key is found. -/
theorem leftOf_ne_zero (now : Time) : leftOf now ((store.live now).get? key) ≠ 0 := by
  cases live : (store.live now).get? key with
  | none => simp [leftOf, Store.remaining]
  | some content =>
      obtain ⟨value, _ | deadline⟩ := content
      · simp [leftOf, Store.remaining]
      · rw [← live_plain, ExpiringMap.live_eq_some_iff] at live
        have positive : 0 < deadline - now := sub_pos.mpr (live.2 deadline rfl)
        have left : max 0 (deadline - now) = deadline - now := max_eq_right positive.le
        have rounded := Int.ceil_pos.mpr positive
        simp only [leftOf, Store.remaining, left]
        split_ifs <;> omega

/-- `TTL` tests the key at its first reading and counts from its second. -/
theorem cmdTtl_eq : cmdTtl readings store [key] =
    ((.ok (.int (leftOf (readings 1) ((store.live (readings 0)).get? key))),
        (store.fetch (readings 0) key).2),
      store.tests key +
        if ((store.fetch (readings 0) key).1.bind Entry.expireAt).isSome then 1 else 0) := by
  rcases Store.fetch_cases store (readings 0) key with
    ⟨dead, fetched⟩ | ⟨entry, present, live, fetched⟩
  · simp [cmdTtl, ttl, leftOf, fetch_eq, fetched, dead, Store.remaining]
  · cases deadline : entry.expireAt with
    | none => simp [cmdTtl, ttl, leftOf, fetch_eq, fetched, live, Entry.content, deadline,
        Store.remaining]
    | some moment =>
        have tests : store.tests key = 1 := by
          unfold Store.tests Store.deadline
          rw [present, Option.bind_some, deadline]
          rfl
        simp [cmdTtl, ttl, leftOf, fetch_eq, fetched, live, Entry.content, deadline,
          Store.remaining, tests]

/-- A `TTL` is explained by one instant unless the deadline passes while it runs, when it
answers 0. -/
theorem atomic_cmdTtl_iff (monotone : Monotone readings) :
    Atomic readings MiniCache.cmdTtl store [key] (cmdTtl readings store [key]) ↔
      ¬ Splits (readings 0) (readings 1) (store.deadline key) := by
  constructor
  · rintro ⟨clock, -, -, reply, -⟩ splits
    obtain ⟨value, deadline, held, alive, passed⟩ := live_of_splits splits
    have live : (store.live (readings 0)).get? key = some (value, some deadline) := by
      rw [← live_plain, held, ExpiringMap.live_some_some, if_pos alive]
    have ideal := @cmdTtl_at store key clock.monotonic
    rw [cmdTtl_eq, live, leftOf_of_passed passed] at reply
    refine @leftOf_ne_zero store key clock.monotonic (Value.int.inj (Except.ok.inj (Eq.trans ?_ reply)))
    exact (congrArg Prod.fst ideal).symm
  · intro unsplit
    have inOrder : readings 0 ≤ readings 1 := monotone (Nat.zero_le 1)
    have still := live_of_unsplit inOrder unsplit
    by_cases counts : ((store.fetch (readings 0) key).1.bind Entry.expireAt).isSome
    · refine @atomic_of_eq readings store _ _ _ 1 (Clock.at (readings 1)) monotone ?_ rfl ?_
      · rw [cmdTtl_eq, cmdTtl_at, still, fetch_of_unsplit inOrder unsplit]
      · have tests : store.tests key = 1 := by
          rcases Store.fetch_cases store (readings 0) key with
            ⟨dead, fetched⟩ | ⟨entry, present, live, fetched⟩
          · simp [fetched] at counts
          · rw [fetched] at counts
            unfold Store.tests Store.deadline
            rw [present, if_pos counts]
        rw [cmdTtl_eq, tests, if_pos counts]
        exact le_rfl
    · refine @atomic_of_eq readings store _ _ _ 0 (Clock.at (readings 0)) monotone ?_ rfl ?_
      · rw [cmdTtl_eq, cmdTtl_at]
        have timeless (now : Time) : leftOf now ((store.live (readings 0)).get? key) =
            leftOf (readings 0) ((store.live (readings 0)).get? key) := by
          rcases Store.fetch_cases store (readings 0) key with
            ⟨dead, fetched⟩ | ⟨entry, present, live, fetched⟩
          · rw [dead]
            rfl
          · rw [fetched] at counts
            have none : entry.expireAt = none := by simpa using counts
            rw [live, Entry.content, none]
            rfl
        rw [timeless]
      · exact Nat.zero_le _

end Lifetime

section Commands

/-- No deadline gets between the readings of a command that go by it. -/
structure Unsplit (readings : Nat → Time) (store : Store) (command : Command)
    (args : List Arg) : Prop where
  set : command = .set → ∀ opts, parseSet args = .ok opts → Together readings store opts
  counter : ∀ key delta, (key, delta) ∈ stepOf command args → Counted readings store key delta
  ttl : command = .ttl → ∀ key, args = [key] →
    ¬ Splits (readings 0) (readings 1) (store.deadline key)

theorem atomic_cmdTtl (monotone : Monotone readings)
    (unsplit : ∀ key, args = [key] → ¬ Splits (readings 0) (readings 1) (store.deadline key)) :
    Atomic readings MiniCache.cmdTtl store args (cmdTtl readings store args) := by
  rcases args with _ | ⟨key, _ | ⟨other, rest⟩⟩
  · exact atomic_of_unread monotone rfl rfl
  · exact (atomic_cmdTtl_iff monotone).mpr (unsplit key rfl)
  · exact atomic_of_unread monotone rfl rfl

theorem atomic_of_first (monotone : Monotone readings)
    (same : done.1 = handler (Clock.at (readings 0)) store args) :
    Atomic readings handler store args done :=
  @atomic_of_eq readings store args _ _ 0 (Clock.at (readings 0)) monotone same rfl
    (Nat.zero_le _)

theorem Unsplit.counted {command : Command} (unsplit : Unsplit readings store command args)
    {delta : Int} (steps : ∀ key, stepOf command [key] = some (key, delta)) (key : Arg)
    (single : args = [key]) : Counted readings store key delta :=
  unsplit.counter key delta (by rw [single, steps]; rfl)

theorem Unsplit.countedBy {command : Command} (unsplit : Unsplit readings store command args)
    {sign : Int} (steps : ∀ key amount, stepOf command [key, amount] =
      (parseInt amount).toOption.map fun delta => (key, sign * delta)) (key amount : Arg)
    (delta : Int) (both : args = [key, amount]) (parsed : parseInt amount = .ok delta) :
    Counted readings store key (sign * delta) :=
  unsplit.counter key _ (by rw [both, steps, parsed]; rfl)

/-- A command on one key is explained by one instant when no deadline gets between its
readings. -/
theorem atomic_of_unsplit (monotone : Monotone readings) (sound : Sound maxmemory policy store)
    {command : Command} {timed : Store → List Arg → Timed}
    (reads : handler? readings command = some timed)
    (single : command = .del ∨ command = .existsKey → args.length ≤ 1)
    (unsplit : Unsplit readings store command args) :
    Atomic readings command.handler store args (timed store args) := by
  cases command <;> cases reads
  case set => exact atomic_cmdSet monotone sound (unsplit.set rfl)
  case get => exact atomic_of_first monotone cmdGet_eq
  case incr => exact atomic_counter monotone (unsplit.counted fun _ => rfl)
  case decr => exact atomic_counter monotone (unsplit.counted fun _ => rfl)
  case incrby => exact atomic_counterBy monotone (unsplit.countedBy fun _ _ => rfl)
  case decrby => exact atomic_counterBy monotone (unsplit.countedBy fun _ _ => rfl)
  case del => exact atomic_of_first monotone (cmdDel_eq (single (Or.inl rfl)))
  case existsKey => exact atomic_of_first monotone (cmdExists_eq (single (Or.inr rfl)))
  case expire => exact atomic_lifetime monotone
  case pexpire => exact atomic_lifetime monotone
  case ttl => exact atomic_cmdTtl monotone (unsplit.ttl rfl)
  case persist => exact atomic_of_first monotone cmdPersist_eq

theorem not_sweeps_of_unlimited (unlimited : store.maxmemory = 0) : ¬ store.Sweeps := by
  rintro ⟨-, overLimit⟩
  simp [Store.overLimit, unlimited] at overLimit

/-- Without a memory cap there are no others. -/
theorem unsplit_of_atomic (monotone : Monotone readings) (sound : Sound maxmemory policy store)
    (uncapped : maxmemory = 0) {command : Command} {timed : Store → List Arg → Timed}
    (reads : handler? readings command = some timed)
    (atomic : Atomic readings command.handler store args (timed store args)) :
    Unsplit readings store command args where
  set isSet opts parsed := by
    have unlimited : store.maxmemory = 0 := sound.limit.trans uncapped
    subst isSet
    cases reads
    have fits : ¬ store.Overflows opts.key opts.value :=
      @not_sweeps_of_unlimited (store.put opts.key opts.value none) unlimited
    refine ⟨fun gets tests deadline isDeadline alive passed => ⟨fits, ?_⟩, ?_⟩
    · exact tested_of_atomic sound parsed atomic gets tests isDeadline alive passed fits
    · exact fun _ overflows => absurd overflows fits
  counter key delta _ new _ sweeps := by
    refine absurd sweeps (not_sweeps_of_unlimited ?_)
    have kept := (Store.keeps_incrCore store (readings 0) key new).maxmemory
    exact kept.trans (sound.limit.trans uncapped)
  ttl isTtl key single := by
    subst isTtl single
    cases reads
    exact (atomic_cmdTtl_iff monotone).mp atomic

/-- A command on one key, whatever the readings of the clock within it, does what it does at
one instant between the first and the last of them, when no deadline passes between two
readings that both go by it; without a memory cap, in no other case. -/
theorem commands_atomic (monotone : Monotone readings) (sound : Sound maxmemory policy store)
    {command : Command} {timed : Store → List Arg → Timed}
    (reads : handler? readings command = some timed)
    (single : command = .del ∨ command = .existsKey → args.length ≤ 1) :
    (Unsplit readings store command args →
        Atomic readings command.handler store args (timed store args)) ∧
      (maxmemory = 0 → Atomic readings command.handler store args (timed store args) →
        Unsplit readings store command args) :=
  ⟨atomic_of_unsplit monotone sound reads single,
    fun uncapped => unsplit_of_atomic monotone sound uncapped reads⟩

/-- A key that lives for a second, and a clock that shows every other second. -/
theorem commands_atomic_late :
    let key := Arg.bytes [1]
    let store := (Store.init 0 .noeviction).operate (.call 0 0 (.set key key (some 1)))
    let readings : Nat → Time := fun taken => 2 * taken
    Atomic readings Command.persist.handler store [key] (cmdPersist readings store [key]) ∧
      ¬ Atomic readings Command.ttl.handler store [key] (cmdTtl readings store [key]) := by
  intro key store readings
  have monotone : Monotone readings := fun first second inOrder => by
    have cast : (first : Time) ≤ second := Nat.cast_le.mpr inOrder
    exact mul_le_mul_of_nonneg_left cast zero_le_two
  have sound : Sound 0 .noeviction store := (sound_init 0 .noeviction).operate _
  constructor
  · have unsplit : Unsplit readings store .persist [key] := by
      constructor
      · intro isSet
        cases isSet
      · intro _ _ counts
        cases counts
      · intro isTtl
        cases isTtl
    exact (@commands_atomic readings store [key] 0 .noeviction monotone sound .persist _ rfl
      (by decide)).1 unsplit
  · intro atomic
    have unsplit := (@commands_atomic readings store [key] 0 .noeviction monotone sound .ttl _ rfl
      (by decide)).2 rfl atomic
    refine unsplit.ttl rfl key rfl ?_
    exact ⟨1, by decide +kernel, by norm_num [readings], by norm_num [readings]⟩

end Commands

section Still

variable {clock : Clock}

theorem delLoop_still (keys : List Arg) (store : Store) (taken : Nat) :
    (delLoop (fun _ => clock.monotonic) keys store taken).1 =
      MiniCache.delLoop clock keys store := by
  induction keys generalizing store taken with
  | nil => rfl
  | cons key rest ih =>
      simp only [delLoop, MiniCache.delLoop, delete_eq]
      rw [ih]

theorem existsLoop_still (keys : List Arg) (store : Store) (taken : Nat) :
    (existsLoop (fun _ => clock.monotonic) keys store taken).1 =
      MiniCache.existsLoop clock keys store := by
  induction keys generalizing store taken with
  | nil => rfl
  | cons key rest ih =>
      simp only [existsLoop, MiniCache.existsLoop,
        @lookup_eq (fun _ => clock.monotonic) store key taken clock rfl]
      rw [ih]

theorem runIncr_still (delta : Int) : (runIncr (fun _ => clock.monotonic) store key delta).1 =
    MiniCache.runIncr clock store key delta := by
  unfold runIncr MiniCache.runIncr
  rcases @incr_eq (fun _ => clock.monotonic) store key 0 delta with
      ⟨message, failed, done⟩ | ⟨new, counts, done⟩ <;>
    rcases Store.incr_cases store clock.monotonic key delta with
      ⟨other, fails, one⟩ | ⟨other, succeeds, one⟩
  · obtain rfl := Except.error.inj (failed.symm.trans fails)
    simp only [done, one]
  · cases failed.symm.trans succeeds
  · cases counts.symm.trans fails
  · obtain rfl := Except.ok.inj (counts.symm.trans succeeds)
    simp only [done, one]

theorem counter_still (delta : Int) : (counter (fun _ => clock.monotonic) store args delta).1 =
    MiniCache.counter delta clock store args := by
  rcases args with _ | ⟨key, _ | ⟨other, rest⟩⟩
  · rfl
  · exact runIncr_still delta
  · rfl

theorem counterBy_still (sign : Int) : (counterBy (fun _ => clock.monotonic) store args sign).1 =
    MiniCache.counterBy sign clock store args := by
  rcases args with _ | ⟨key, _ | ⟨amount, _ | ⟨other, rest⟩⟩⟩
  · rfl
  · rfl
  · cases parsed : parseInt amount with
    | error raised => simp only [counterBy, MiniCache.counterBy, parsed]
    | ok delta => simp only [counterBy, MiniCache.counterBy, parsed, runIncr_still]
  · rfl

theorem lifetime_still (perSecond : Time) :
    (lifetime (fun _ => clock.monotonic) store args perSecond).1 =
      MiniCache.lifetime perSecond clock store args := by
  rcases args with _ | ⟨key, _ | ⟨amount, _ | ⟨other, rest⟩⟩⟩
  · rfl
  · rfl
  · cases parsed : parseInt amount with
    | error raised => simp only [lifetime, MiniCache.lifetime, parsed]
    | ok number =>
        have same := @expire_eq (fun _ => clock.monotonic) store key 0 (number / perSecond)
        rw [add_sub_cancel_left] at same
        simp only [lifetime, MiniCache.lifetime, parsed, same]
  · rfl

theorem cmdTtl_still : (cmdTtl (fun _ => clock.monotonic) store args).1 =
    MiniCache.cmdTtl clock store args := by
  rcases args with _ | ⟨key, _ | ⟨other, rest⟩⟩
  · rfl
  · rw [cmdTtl_eq]
    exact (@cmdTtl_at store key clock.monotonic).symm
  · rfl

theorem cmdSet_still : (cmdSet (fun _ => clock.monotonic) store args).1 =
    MiniCache.cmdSet clock store args := by
  by_cases short : args.length < 2
  · rw [cmdSet, MiniCache.cmdSet, if_pos short, if_pos short]
  · cases parsed : parseSet args with
    | error raised => simp only [cmdSet, MiniCache.cmdSet, if_neg short, parsed]
    | ok opts =>
        rw [cmdSet_eq parsed, cmdSet_at parsed]
        split_ifs <;> rfl

/-- With a clock that stands still, the commands are those at one instant. -/
theorem handler_of_still {command : Command} {timed : Store → List Arg → Timed}
    (reads : handler? (fun _ => clock.monotonic) command = some timed) :
    (timed store args).1 = command.handler clock store args := by
  cases command <;> cases reads
  case set => exact cmdSet_still
  case get => exact cmdGet_eq
  case incr => exact counter_still 1
  case decr => exact counter_still (-1)
  case incrby => exact counterBy_still 1
  case decrby => exact counterBy_still (-1)
  case del =>
    simp only [cmdDel, Command.handler, MiniCache.cmdDel, delLoop_still]
    split_ifs <;> rfl
  case existsKey =>
    simp only [cmdExists, Command.handler, MiniCache.cmdExists, existsLoop_still]
    split_ifs <;> rfl
  case expire => exact lifetime_still 1
  case pexpire => exact lifetime_still 1000
  case ttl => exact cmdTtl_still
  case persist => exact cmdPersist_eq

end Still

end Readings

end MiniCache
