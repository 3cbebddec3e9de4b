import MiniCache.AofRecords
import MiniCache.CommandCalls

/-!
# The deadlines of a store

Every deadline of a store was given by a command, as a number of seconds or
milliseconds that the command could read.  Read on the wall clock and rounded to
milliseconds it can be written into the log again, as long as the two clocks of the
process keep their distance.
-/

namespace MiniCache

open ExpiringMap (Purged)

section Dated

namespace Store

/-- All deadlines of a store satisfy a condition. -/
def Dated (lasting : Time → Prop) (store : Store) : Prop :=
  ∀ key value deadline, store.plain key = some (value, some deadline) → lasting deadline

variable {lasting : Time → Prop} {store other : Store} {now : Time}

theorem dated_init (maxmemory : Nat) (policy : Policy) :
    Dated lasting (.init maxmemory policy) := by
  rintro key value deadline ⟨⟩

/-- Contents that were there before keep their deadlines. -/
theorem Dated.of_subset (dated : Dated lasting store)
    (subset : ∀ key content, other.plain key = some content → store.plain key = some content) :
    Dated lasting other :=
  fun key value deadline held => dated key value deadline (subset key _ held)

theorem Dated.of_data (dated : Dated lasting store) (same : other.data = store.data) :
    Dated lasting other := by
  refine dated.of_subset fun key content held => ?_
  rwa [plain_eq, same, ← plain_eq] at held

theorem Dated.remove (dated : Dated lasting store) (key : Arg) (expired : Bool) :
    Dated lasting (store.remove key expired) := by
  refine dated.of_subset fun other content held => ?_
  rw [plain_remove] at held
  split_ifs at held
  exact held

theorem Dated.purged (dated : Dated lasting store)
    (purged : ∀ key, Purged now (store.plain key) (other.plain key)) : Dated lasting other := by
  refine dated.of_subset fun key content held => ?_
  rcases purged key with same | ⟨gone, -⟩
  · exact same.symm.trans held
  · rw [gone] at held
    cases held

theorem Dated.evict (dated : Dated lasting store) (now : Time) :
    Dated lasting (store.evict now) := by
  unfold Store.evict
  split_ifs
  · exact dated
  · refine @evictLoop_induct (Dated lasting) ?_ _ _ (dated.purged (purged_sweep store now))
    intro middle key entry datedMiddle _ _ _
    exact (datedMiddle.remove key false).of_data rfl

theorem Dated.put (dated : Dated lasting store) (key value : Arg) {expireAt : Option Time}
    (lasts : ∀ deadline ∈ expireAt, lasting deadline) :
    Dated lasting (store.put key value expireAt) := by
  intro other found deadline held
  rw [plain_put] at held
  split_ifs at held
  · cases held
    exact lasts deadline rfl
  · exact dated other found deadline held

/-- A new deadline for a key that is present, or none. -/
theorem Dated.setItem (dated : Dated lasting store) {key : Arg} {entry : Entry}
    {expireAt : Option Time} (lasts : ∀ deadline ∈ expireAt, lasting deadline)
    (data : other.data = store.data.setItem key { entry with expireAt := expireAt }) :
    Dated lasting other := by
  intro changed value deadline held
  rw [plain_eq, data, OrderedDict.get?_setItem] at held
  split_ifs at held
  · obtain ⟨rfl, given⟩ := Prod.mk.inj (Option.some.inj held)
    exact lasts deadline given
  · rw [← plain_eq] at held
    exact dated changed value deadline held

/-- A call keeps the deadlines that there were and gives its own. -/
theorem Dated.call (dated : Dated lasting store) {call : Call} (lasts : call.Lasts now lasting) :
    Dated lasting (store.call now call).2 := by
  cases call with
  | set key value ttl =>
      refine Dated.evict ?_ now
      have stored : Dated lasting (store.put key value (ttl.map (now + ·))) := by
        refine dated.put key value fun deadline given => ?_
        obtain ⟨lifetime, member, rfl⟩ := Option.map_eq_some_iff.mp given
        exact lasts lifetime member
      exact stored.of_data (setCore_data ..)
  | incr key delta =>
      simp only [Store.call]
      have fetched : Dated lasting (store.fetch now key).2 :=
        dated.purged (purged_fetch store now key)
      rcases incr_cases store now key delta with ⟨_, -, failed⟩ | ⟨new, -, stored⟩
      · rw [failed]
        exact fetched
      · rw [stored]
        refine Dated.evict ?_ now
        refine Dated.put (fetched.of_data rfl) key _ fun deadline given => ?_
        obtain ⟨⟨value, noted⟩, live, same⟩ := Option.bind_eq_some_iff.mp given
        obtain rfl : noted = some deadline := same
        rw [← live_plain] at live
        exact dated key value deadline (ExpiringMap.live_eq_some_iff.mp live).1
  | delete key =>
      obtain ⟨expired, deleted⟩ := delete_store store now key
      simp only [Store.call, deleted]
      exact dated.remove key expired
  | expire key ttl =>
      simp only [Store.call]
      rcases expire_cases store now key ttl with ⟨-, done⟩ | ⟨entry, -, -, done⟩ <;> rw [done]
      · exact dated.remove key true
      · refine dated.setItem (fun deadline given => ?_) (schedule_data _ _ _)
        cases given
        exact lasts
  | persist key =>
      simp only [Store.call]
      rcases persist_cases store now key with
        ⟨-, done⟩ | ⟨value, -, done⟩ | ⟨entry, expireAt, -, -, -, done⟩ <;> rw [done]
      · exact dated.remove key true
      · exact dated
      · exact @Dated.setItem _ _ _ dated key entry none (by simp) rfl
  | flush =>
      rintro key value deadline ⟨⟩
  | get key | existsKey key => exact dated.purged (purged_get store now key)
  | ttl key =>
      simp only [Store.call, ttl_store]
      exact dated.purged (purged_fetch store now key)
  | keys | snapshot | len | sweepExpired => exact dated.purged (purged_sweep store now)

end Store

theorem Runs.dated {now : Time} {allowed : Arg → Prop} {lasting : Time → Prop}
    {store other : Store} (run : Runs now allowed lasting store other)
    (dated : store.Dated lasting) : other.Dated lasting := by
  induction run with
  | refl => exact dated
  | call call _ _ lasts ih => exact ih.call lasts
  | count hits misses _ ih => exact ih

end Dated

section Datable

/-- A reading of the wall clock that a command can ask for: a bounded one, or a whole
number of milliseconds that `PEXPIREAT` takes. -/
def Datable (moment : Time) : Prop :=
  |moment| ≤ 2 ^ 65 ∨ ∃ unixMs, moment = ofMs unixMs ∧ ¬ QuotientOverflows unixMs

/-- Such a reading in milliseconds. -/
def wallMs (moment : Time) : Int := roundToEven (moment * 1000)

variable {clock : Clock} {moment : Time}

theorem Datable.not_quotientOverflows (datable : Datable moment) :
    ¬ QuotientOverflows (wallMs moment) := by
  rcases datable with small | ⟨unixMs, rfl, fits⟩
  · apply not_quotientOverflows_of_loggable
    have rounded := abs_le.mp (abs_roundToEven_sub (moment * 1000))
    have bounds := abs_le.mp small
    apply loggable_of_abs
    unfold wallMs
    rw [abs_lt]
    constructor <;> linarith
  · have exact_ : ofMs unixMs * 1000 = unixMs := by
      unfold ofMs
      ring
    rwa [wallMs, exact_, roundToEven_intCast]

/-- What fits a float has few digits. -/
theorem natAbs_of_fits {number : Int} (fits : ¬ QuotientOverflows number) :
    number.natAbs < 10 ^ maxStrDigits := by
  have few : 1000 * (2 ^ 1024 - 2 ^ 970 : Nat) ≤ 10 ^ maxStrDigits := by decide +kernel
  exact lt_of_lt_of_le (not_le.mp fits) few

theorem near_wallMs (moment : Time) : Near moment (ofMs (wallMs moment)) := by
  have rounded := abs_le.mp (abs_roundToEven_sub (moment * 1000))
  unfold Near ofMs wallMs
  rw [abs_lt]
  constructor <;> linarith

theorem datable_of_lifetime (clock : Clock) {ttl : Time} (small : |ttl| ≤ 2 ^ 63) :
    Datable (clock.time + ttl) := by
  left
  have bounds := abs_le.mp small
  have lower := clock.lower
  have upper := clock.upper
  rw [abs_le]
  constructor <;> linarith

/-- The lifetime that a command gives ends at a datable moment. -/
theorem datable_lifespan (clock : Clock) (found : Command) (args : List Arg) :
    ∀ ttl ∈ found.lifespan clock args, Datable (clock.time + ttl) := by
  intro ttl given
  cases found with
  | set =>
      simp only [Command.lifespan] at given
      cases parsed : parseSet args with
      | error raised =>
          rw [parsed] at given
          cases given
      | ok opts =>
          rw [parsed] at given
          obtain ⟨positive, bounded, -⟩ := (parseSet_ok parsed).2 ttl given
          exact datable_of_lifetime clock (by rw [abs_of_pos positive]; exact bounded.le)
  | expire | pexpire =>
      rcases args with _ | ⟨key, _ | ⟨amount, _ | ⟨_, _⟩⟩⟩
      case cons.cons.nil =>
        simp only [Command.lifespan] at given
        cases parsed : parseInt amount with
        | error raised =>
            rw [parsed] at given
            cases given
        | ok number =>
            rw [parsed] at given
            cases given
            have bounds := abs_le.mp (abs_intCast_le (parseInt_ok parsed).2)
            refine datable_of_lifetime clock (abs_le.mpr ?_)
            constructor <;> linarith
      all_goals cases given
  | pexpireat =>
      rcases args with _ | ⟨key, _ | ⟨moment, _ | ⟨_, _⟩⟩⟩
      case cons.cons.nil =>
        simp only [Command.lifespan] at given
        cases read : intOfText (toText moment) with
        | none =>
            rw [read] at given
            cases given
        | some unixMs =>
            rw [read] at given
            dsimp only at given
            split_ifs at given with overflows
            · cases given
            · cases given
              exact Or.inr ⟨unixMs, by rw [ofMs]; ring, overflows⟩
      all_goals cases given
  | mset | incr | decr | incrby | decrby | del | persist | flushdb | ping | echo | get | mget
  | existsKey | ttl | keys | dbsize => cases given

end Datable

section Reachable

/-- The stores that a process reaches whose clocks are this far apart, with the
commands it reads, its sweeps and the collection of evictions. -/
inductive ReachableOn (offset : Time) (maxmemory : Nat) (policy : Policy) : Store → Prop
  | init : ReachableOn offset maxmemory policy (.init maxmemory policy)
  | dispatch {store : Store} {command : List Bytes} (clock : Clock)
      (sameOffset : clock.monotonic - clock.time = offset)
      (reachable : ReachableOn offset maxmemory policy store)
      (deliverable : Deliverable command) :
      ReachableOn offset maxmemory policy (dispatch clock store (received command)).2
  | sweep {store : Store} (now : Time) (reachable : ReachableOn offset maxmemory policy store) :
      ReachableOn offset maxmemory policy (store.sweepExpired now).2
  | drain {store : Store} (reachable : ReachableOn offset maxmemory policy store) :
      ReachableOn offset maxmemory policy store.drainEvictions.2

variable {offset : Time} {maxmemory : Nat} {policy : Policy} {store : Store}

theorem ReachableOn.sound (reachable : ReachableOn offset maxmemory policy store) :
    store.Sound maxmemory policy := by
  induction reachable with
  | init => exact Store.sound_init maxmemory policy
  | @dispatch store command clock _ _ _ ih =>
      exact (@reaches_dispatch clock (fun _ => True) store _ fun _ _ => trivial).sound ih
  | sweep now _ ih => exact ih.operate (.call now now .sweepExpired)
  | drain _ ih => exact ih.operate .drainEvictions

theorem ReachableOn.storing (reachable : ReachableOn offset maxmemory policy store) :
    store.Storing := by
  induction reachable with
  | init => rintro key content ⟨⟩
  | dispatch clock _ _ deliverable ih =>
      exact (reaches_dispatch fun _ => storable_of_mem deliverable.sizes).storing ih
  | sweep now _ ih => exact (Store.Includes.of_purged (Store.purged_sweep _ now)).storing ih
  | drain _ ih => exact ih

/-- Deadlines read on the wall clock are datable. -/
theorem ReachableOn.dated (reachable : ReachableOn offset maxmemory policy store) :
    store.Dated fun deadline => Datable (deadline - offset) := by
  induction reachable with
  | init => exact Store.dated_init maxmemory policy
  | @dispatch store command clock sameOffset _ _ ih =>
      have run := @runs_dispatch clock (fun _ => True)
        (fun deadline => Datable (deadline - offset)) store (received command)
        (fun _ _ => trivial) fun found _ ttl given => by
          have datable := datable_lifespan clock found (received command).tail ttl given
          rw [← sameOffset]
          rwa [show clock.monotonic + ttl - (clock.monotonic - clock.time) = clock.time + ttl
            by ring]
      exact run.dated ih
  | sweep now _ ih => exact ih.purged (Store.purged_sweep _ now)
  | drain _ ih => exact ih.of_data rfl

end Reachable

end MiniCache
