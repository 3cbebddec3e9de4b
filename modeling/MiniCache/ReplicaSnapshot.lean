import MiniCache.ReplicaStream

/-!
# The snapshot for a replica

What clients store can be sent to a replica.  A snapshot leaves there the live
contents of the primary, with lifetimes that are rounded up to whole seconds.
-/

namespace MiniCache

open ExpiringMap (Effect Action Tracks Trails applyAll)

section Transfer

/-- A content that a snapshot can transfer. -/
structure Transferable (key : Arg) (content : Arg × Option Time) : Prop where
  key : Storable key
  value : Storable content.1
  limit : ∀ limit ∈ content.2, limit < 2 ^ 44

theorem storable_incrementUpdate {key : Arg} {delta : Int} {current : Option Arg} {new : Arg}
    (sample : Storable (current.getD key)) (updated : incrementUpdate key delta current = some new) :
    Storable new := by
  unfold incrementUpdate at updated
  cases done : Store.incremented current delta with
  | error message =>
      rw [done] at updated
      cases updated
  | ok number =>
      rw [done] at updated
      cases updated
      exact storable_incrementedValue sample (inInt64_of_incremented done)

variable {clock : Clock} {plain : PlainMap} {key : Arg}

theorem keeps_counterEffect (storable : Storable key) (delta : Int) :
    (counterEffect key delta).Keeps Transferable := by
  refine ⟨?_, ?_⟩
  · rintro value deadline ⟨isKey, isValue, limit⟩ new updated
    exact ⟨isKey, @storable_incrementUpdate key delta (some value) new isValue updated, limit⟩
  · intro new updated
    exact ⟨storable, @storable_incrementUpdate key delta none new storable updated,
      fun _ none => by cases none⟩

theorem keeps_clear : (Effect.act key .clear : Effect Arg Arg Time).Keeps Transferable :=
  trivial

theorem keeps_write {value : Arg} {deadline : Option Time} (storable : Storable key)
    (valueStorable : Storable value) (limit : ∀ limit ∈ deadline, limit < 2 ^ 44) :
    (Effect.act key (.write value deadline) : Effect Arg Arg Time).Keeps Transferable :=
  ⟨storable, valueStorable, limit⟩

theorem keeps_setDeadline {deadline : Time} (soon : deadline < 2 ^ 44) :
    (Effect.act key (.setDeadline deadline) : Effect Arg Arg Time).Keeps Transferable := by
  rintro content ⟨isKey, isValue, -⟩
  refine ⟨isKey, isValue, ?_⟩
  rintro limit ⟨⟩
  exact soon

theorem keeps_persist : (Effect.act key .persist : Effect Arg Arg Time).Keeps Transferable :=
  fun _ held => ⟨held.key, held.value, fun _ none => by cases none⟩

theorem keeps_pairWrites {pairs : List Arg} (storable : ∀ arg ∈ pairs, Storable arg) :
    ∀ effect ∈ pairWrites pairs, effect.Keeps Transferable := by
  induction pairs using pairWrites.induct with
  | case1 key value rest ih =>
      rw [pairWrites]
      intro effect member
      rcases List.mem_cons.mp member with rfl | inRest
      · exact keeps_write (storable key (by simp)) (storable value (by simp))
          fun _ none => by cases none
      · exact ih (fun arg inside => storable arg (by simp [inside])) effect inRest
  | case2 rest single =>
      rw [pairWrites]
      · simp
      · exact single

/-- A short lifetime from now ends before the bound of the snapshots. -/
theorem time_add_lt (clock : Clock) {milliseconds : Time} (short : milliseconds < 2 ^ 53) :
    clock.time + milliseconds / 1000 < 2 ^ 44 := by
  have upper := clock.upper
  linarith

theorem keeps_lifetimeEffects {perSecond : Time} {args : List Arg}
    (soon : ∀ key amount number, args = [key, amount] → parseInt amount = .ok number →
      clock.time + number / perSecond < 2 ^ 44) :
    ∀ effect ∈ lifetimeEffects perSecond clock.time args, effect.Keeps Transferable := by
  intro effect member
  unfold lifetimeEffects at member
  split at member
  · split at member
    · cases member
    · rename_i key amount _ number parsed
      obtain rfl := List.mem_singleton.mp member
      exact keeps_setDeadline (soon key amount number rfl parsed)
  · cases member

/-- The contents that short-lived commands of a client leave can be transferred. -/
theorem keeps_commandEffects {command : List Bytes} (deliverable : Deliverable command)
    (short : ShortLived command) :
    ∀ effect ∈ commandEffects clock.time plain (received command),
      effect.Keeps Transferable := by
  cases command with
  | nil => intro effect member; cases member
  | cons head args =>
      have storable : ∀ arg ∈ received args, Storable arg := fun arg member =>
        storable_of_mem
          (fun data inside => deliverable.sizes data (List.mem_cons_of_mem head inside)) member
      unfold commandEffects
      cases known : Command.ofCommand (received (head :: args)) with
      | none => intro effect member; cases member
      | some found =>
          rw [ShortLived, known] at short
          change ∀ milliseconds ∈ found.expiry (received args), _ at short
          change ∀ effect ∈ found.effects clock.time plain (received args), _
          generalize received args = args at storable short
          cases found with
          | set =>
              intro effect member
              rw [Command.effects, setEffects] at member
              cases parsed : parseSet args with
              | error raised =>
                  rw [parsed] at member
                  cases member
              | ok opts =>
                  rw [parsed] at member
                  dsimp only at member
                  split_ifs at member
                  · cases member
                  obtain rfl := List.mem_singleton.mp member
                  obtain ⟨options, rfl⟩ := parseSet_args parsed
                  refine keeps_write (storable _ (by simp)) (storable _ (by simp)) ?_
                  intro limit isLimit
                  obtain ⟨ttl, isTtl, rfl⟩ := Option.map_eq_some_iff.mp isLimit
                  have within : ttl * 1000 < 2 ^ 53 := by
                    refine short _ ?_
                    simp [Command.expiry, parsed, isTtl]
                  have ends := time_add_lt clock within
                  rwa [mul_div_assoc, div_self (by norm_num), mul_one] at ends
          | mset =>
              rw [Command.effects]
              split_ifs
              · intro effect member; cases member
              · exact keeps_pairWrites storable
          | incr | decr =>
              intro effect member
              rw [Command.effects] at member
              unfold counterEffects at member
              split at member
              · obtain rfl := List.mem_singleton.mp member
                exact keeps_counterEffect (storable _ (by simp)) _
              · cases member
          | incrby | decrby =>
              intro effect member
              rw [Command.effects] at member
              unfold counterByEffects at member
              split at member
              · split at member
                · cases member
                · obtain rfl := List.mem_singleton.mp member
                  exact keeps_counterEffect (storable _ (by simp)) _
              · cases member
          | del =>
              intro effect member
              obtain ⟨key, -, rfl⟩ := List.mem_map.mp member
              exact keeps_clear
          | expire =>
              refine keeps_lifetimeEffects ?_
              rintro key amount number rfl parsed
              have within : (number : Time) * 1000 < 2 ^ 53 := by
                refine short _ ?_
                simp [Command.expiry, (parseInt_ok parsed).1]
              have ends := time_add_lt clock within
              rwa [mul_div_assoc, div_self (by norm_num), mul_one, ← div_one (number : Time)]
                at ends
          | pexpire =>
              refine keeps_lifetimeEffects ?_
              rintro key amount number rfl parsed
              refine time_add_lt clock (short _ ?_)
              simp [Command.expiry, (parseInt_ok parsed).1]
          | pexpireat =>
              intro effect member
              rw [Command.effects] at member
              unfold deadlineEffects at member
              split at member
              · split at member
                · cases member
                · rename_i key moment _ unixMs read
                  split_ifs at member
                  · cases member
                  obtain rfl := List.mem_singleton.mp member
                  have within : (unixMs : Time) < 2 ^ 53 := by
                    refine short _ ?_
                    simp [Command.expiry, read]
                  exact keeps_setDeadline (by linarith)
              · cases member
          | persist =>
              intro effect member
              rw [Command.effects] at member
              unfold persistEffects at member
              split at member
              · obtain rfl := List.mem_singleton.mp member
                exact keeps_persist
              · cases member
          | flushdb =>
              intro effect member
              rw [Command.effects] at member
              unfold flushEffects at member
              split at member
              · obtain rfl := List.mem_singleton.mp member
                trivial
              · cases member
          | ping | echo | get | mget | existsKey | ttl | keys | dbsize =>
              intro effect member
              cases member

end Transfer

section Snapshot

variable {clock : Clock} {store : Store} {plain : PlainMap}

theorem streams_expire {key : Bytes} (keySmall : key.length ≤ MAX_BULK_LENGTH) {seconds : Int}
    (inRange : InInt64 seconds) :
    Streams clock [[.ofString "EXPIRE", .bytes key, .ofInt seconds]]
      [.act (.bytes key) (.setDeadline (clock.time + seconds))] := by
  have parsed := parseInt_intText inRange
  refine @streams_spelled clock _ .expire trivial [key, encodeUtf8 (intText seconds)] _ rfl
    ?_ ?_ ?_ fun plain => ?_
  · simp only [List.length_cons, List.length_nil]
    decide
  · simpa using ⟨keySmall, length_intText_wire inRange⟩
  · change escaping (parseInt _) = false
    rw [parsed]
    rfl
  · change lifetimeEffects 1 clock.time [.bytes key, .bytes (encodeUtf8 (intText seconds))] = _
    rw [lifetimeEffects, parsed]
    simp

theorem streams_flushdb : Streams clock [[.ofString "FLUSHDB"]] [.flush] :=
  @streams_spelled clock _ .flushdb trivial [] _ rfl (by decide) (by simp) rfl fun plain => rfl

/-- What a listed entry becomes on the replica. -/
def snapshotEffect (clock : Clock) (entry : Arg × Arg × Option Time) : Effect Arg Arg Time :=
  .act entry.1 (.write entry.2.1
    (entry.2.2.map fun ttl => clock.time + (truncateToInt ttl + 1 : Int)))

/-- An entry that a snapshot can list. -/
structure Listable (entry : Arg × Arg × Option Time) : Prop where
  key : Storable entry.1
  value : Storable entry.2.1
  positive : ∀ ttl ∈ entry.2.2, 0 < ttl
  bounded : ∀ ttl ∈ entry.2.2, ttl < 2 ^ 45

theorem inInt64_truncate {ttl : Time} (positive : 0 < ttl) (bounded : ttl < 2 ^ 45) :
    InInt64 (truncateToInt ttl + 1) := by
  have truncated := abs_lt.mp (abs_truncateToInt_sub ttl)
  have lower : (-1 : Time) < truncateToInt ttl := by linarith
  have upper : (truncateToInt ttl : Time) < 2 ^ 45 + 1 := by linarith
  have lowerInt : -1 < truncateToInt ttl := by exact_mod_cast lower
  have upperInt : truncateToInt ttl < 2 ^ 45 + 1 := by exact_mod_cast upper
  constructor <;> omega

theorem streams_listed {entries : List (Arg × Arg × Option Time)}
    (listable : ∀ entry ∈ entries, Listable entry) :
    Streams clock
      (entries.flatMap fun (key, value, ttl) =>
        let setCommand := [.ofString "SET", key, value]
        match ttl with
        | none => [setCommand]
        | some ttl => [setCommand, [.ofString "EXPIRE", key, .ofInt (truncateToInt ttl + 1)]])
      (entries.map (snapshotEffect clock)) := by
  induction entries with
  | nil => exact streams_nil
  | cons entry rest ih =>
      obtain ⟨key, value, ttl⟩ := entry
      have streamsRest := ih fun other member => listable other (List.mem_cons_of_mem _ member)
      obtain ⟨⟨keyBytes, keyEq, keySmall⟩, ⟨valueBytes, valueEq, valueSmall⟩, positive, bounded⟩ :=
        listable (key, value, ttl) (List.mem_cons_self ..)
      dsimp only at keyEq valueEq positive bounded
      subst keyEq valueEq
      have stored := @streams_set clock keyBytes valueBytes keySmall valueSmall
      cases ttl with
      | none => exact stored.append streamsRest
      | some ttl =>
          have inRange := inInt64_truncate (positive ttl rfl) (bounded ttl rfl)
          have both := stored.append (@streams_expire clock keyBytes keySmall _ inRange)
          have timed : Streams clock
              ([[.ofString "SET", .bytes keyBytes, .bytes valueBytes]] ++
                [[.ofString "EXPIRE", .bytes keyBytes, .ofInt (truncateToInt ttl + 1)]])
              [snapshotEffect clock (.bytes keyBytes, .bytes valueBytes, some ttl)] := by
            refine ⟨fun {store plain} represents => ?_⟩
            -- Writing and then setting the deadline is writing with the deadline.
            have after := both.acts represents
            simp only [List.singleton_append, ExpiringMap.applyAll_cons,
              ExpiringMap.applyAll_nil, Effect.apply_setDeadline_write] at after
            exact after
          exact timed.append streamsRest

/-- What the effects of a listing leave, entry by entry. -/
theorem applyAll_entries {entries : List (Arg × Content)} (distinct : (entries.map Prod.fst).Nodup)
    (now : Time) (image : Content → Content) (space : PlainMap) :
    (∀ key content, (key, content) ∈ entries →
      applyAll now (entries.map fun (key, content) =>
        Effect.act key (.write (image content).1 (image content).2)) space key =
          some (image content)) ∧
    ∀ key, key ∉ entries.map Prod.fst →
      applyAll now (entries.map fun (key, content) =>
        Effect.act key (.write (image content).1 (image content).2)) space key = space key := by
  induction entries generalizing space with
  | nil => exact ⟨fun _ _ member => (by cases member), fun _ _ => rfl⟩
  | cons entry rest ih =>
      obtain ⟨first, content⟩ := entry
      rw [List.map_cons, List.nodup_cons] at distinct
      obtain ⟨inRest, elsewhere⟩ := ih distinct.2
        ((Effect.act first (.write (image content).1 (image content).2)).apply now space)
      refine ⟨?_, ?_⟩
      · intro key other member
        rcases List.mem_cons.mp member with same | later
        · obtain ⟨rfl, rfl⟩ := Prod.mk.inj same
          exact (elsewhere key distinct.1).trans (ExpiringMap.Effect.apply_act_self ..)
        · exact inRest key other later
      · intro key absent
        rw [List.map_cons, List.mem_cons, not_or] at absent
        exact (elsewhere key absent.2).trans
          (ExpiringMap.Effect.apply_act_of_ne _ _ _ (Ne.symm absent.1))

theorem applyAll_listing (dict : OrderedDict Arg Content) (now : Time)
    (image : Content → Content) (key : Arg) :
    applyAll now (dict.entries.map fun (key, content) =>
      Effect.act key (.write (image content).1 (image content).2)) (fun _ => none) key =
        (dict.get? key).map image := by
  obtain ⟨inside, outside⟩ := applyAll_entries dict.nodupKeys now image fun _ => none
  cases found : dict.get? key with
  | none => exact outside key (OrderedDict.get?_eq_none_iff.mp found)
  | some content => exact inside key content (OrderedDict.get?_eq_some_iff.mp found)

/-- A deadline that may be late, by a second at most. -/
def Lags (limit copyLimit : Time) : Prop := limit ≤ copyLimit ∧ copyLimit ≤ limit + 1

theorem lags_refl (limit : Time) : Lags limit limit :=
  ⟨le_refl limit, by linarith⟩

theorem lags_truncate {clock : Clock} {limit : Time} (alive : clock.time < limit) :
    Lags limit (clock.time + (truncateToInt (limit - clock.time) + 1 : Int)) := by
  have positive : 0 ≤ limit - clock.time := by linarith
  have truncated : truncateToInt (limit - clock.time) = ⌊limit - clock.time⌋ :=
    if_pos positive
  have floorLe := Int.floor_le (limit - clock.time)
  have ltFloor := Int.lt_floor_add_one (limit - clock.time)
  rw [truncated]
  push_cast
  constructor <;> linarith

/-- A flush and the snapshot of a store leave on a replica what trails the store. -/
theorem snapshot_trails (represents : Represents clock store plain)
    (transferable : ∀ key, ∀ content ∈ plain key, Transferable key content) {other : Store}
    {otherPlain : PlainMap} (otherRepresents : Represents clock other otherPlain) :
    ∃ after copy,
      deliverAll clock ([.ofString "FLUSHDB"] :: (buildSnapshotCommands clock store).1) other =
        (true, after) ∧
      Represents clock after copy ∧
        ∀ key, Trails Lags clock.time (plain key) (copy key) := by
  let dict := store.live clock.monotonic
  let image : Content → Content := fun content =>
    (content.1, content.2.map fun limit =>
      clock.time + (truncateToInt (limit - clock.monotonic) + 1 : Int))
  have listed : (store.snapshot clock.monotonic).1 = dict.entries.map fun (key, content) =>
      (key, content.1, content.2.map (· - clock.monotonic)) :=
    Store.snapshot_result store clock.monotonic
  have cell (key : Arg) (content : Content) (member : (key, content) ∈ dict.entries) :
      ∃ limit, plain key = some (content.1, limit) ∧
        content.2 = limit.map clock.toMonotonic ∧ ExpiringMap.Alive clock.time limit := by
    have found := OrderedDict.get?_eq_some_iff.mpr member
    rw [show dict.get? key = _ from represents.get? key] at found
    obtain ⟨⟨value, limit⟩, live, same⟩ := Option.map_eq_some_iff.mp found
    obtain ⟨present, alive⟩ := ExpiringMap.live_eq_some_iff.mp live
    subst same
    exact ⟨limit, present, rfl, alive⟩
  have listable : ∀ entry ∈ (store.snapshot clock.monotonic).1, Listable entry := by
    rw [listed]
    intro entry member
    obtain ⟨⟨key, content⟩, inDict, rfl⟩ := List.mem_map.mp member
    obtain ⟨limit, present, deadline, alive⟩ := cell key content inDict
    obtain ⟨isKey, isValue, soon⟩ := transferable key _ present
    have left : ∀ ttl ∈ content.2.map (· - clock.monotonic),
        ∃ last ∈ limit, ttl = last - clock.time := by
      rw [deadline]
      intro ttl isTtl
      obtain ⟨moment, isMoment, rfl⟩ := Option.map_eq_some_iff.mp isTtl
      obtain ⟨last, isLast, rfl⟩ := Option.map_eq_some_iff.mp isMoment
      refine ⟨last, isLast, ?_⟩
      unfold Clock.toMonotonic
      ring
    have lower := clock.lower
    refine ⟨isKey, isValue, ?_, ?_⟩
    · intro ttl isTtl
      obtain ⟨last, isLast, rfl⟩ := left ttl isTtl
      exact sub_pos.mpr (alive last isLast)
    · intro ttl isTtl
      obtain ⟨last, isLast, rfl⟩ := left ttl isTtl
      have before := soon last isLast
      linarith
  obtain ⟨after, delivered, represented⟩ :=
    (streams_flushdb.append (streams_listed listable)).acts otherRepresents
  refine ⟨after, _, delivered, represented, fun key => ?_⟩
  have copyEq : applyAll clock.time
      ([Effect.flush] ++ (store.snapshot clock.monotonic).1.map (snapshotEffect clock))
        otherPlain key = (dict.get? key).map image := by
    rw [ExpiringMap.applyAll_append, listed, List.map_map, ← applyAll_listing dict clock.time]
    rw [show applyAll clock.time [Effect.flush] otherPlain = fun _ => none from rfl]
    congr 1
    refine List.map_congr_left fun entry _ => ?_
    obtain ⟨key, value, deadline⟩ := entry
    cases deadline <;> rfl
  rw [copyEq, show dict.get? key = _ from represents.get? key]
  cases live : ExpiringMap.live clock.time (plain key) with
  | none => exact Or.inr ⟨live, rfl⟩
  | some content =>
      obtain ⟨value, limit⟩ := content
      obtain ⟨present, alive⟩ := ExpiringMap.live_eq_some_iff.mp live
      rw [present]
      refine Or.inl (Option.Rel.some ⟨rfl, ?_⟩)
      cases limit with
      | none => exact Option.Rel.none
      | some limit =>
          have left : clock.toMonotonic limit - clock.monotonic = limit - clock.time := by
            unfold Clock.toMonotonic
            ring
          have lags := lags_truncate ((ExpiringMap.alive_some _ _).mp alive)
          rw [← left] at lags
          exact Option.Rel.some lags

end Snapshot

end MiniCache
