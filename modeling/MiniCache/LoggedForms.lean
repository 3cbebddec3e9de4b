import MiniCache.CommandForms

/-!
# The records of a command at the instant of logging

The records of an effective write, dispatched at once on an equal store, are all
accepted and leave what the command left, with deadlines that are at most a
millisecond off.
-/

namespace MiniCache

open ExpiringMap (Cell Effect Action Alive applyAll live mapDeadline)

section Retention

/-- What a copy may hold for a live cell: the same value with a deadline at most a
millisecond off; for no live cell, at most one that expires within a millisecond. -/
def Retains (now : Time) (cell copy : Cell Arg Time) : Prop :=
  match cell with
  | none => ∀ content ∈ copy, ∃ deadline, content.2 = some deadline ∧ deadline ≤ now + 1 / 1000
  | some (value, none) => copy = some (value, none)
  | some (value, some deadline) =>
      ∃ other, copy = some (value, some other) ∧ |other - deadline| ≤ 1 / 1000

variable {clock : Clock} {now deadline other : Time} {cell copy : Cell Arg Time}

theorem retains_refl (now : Time) (cell : Cell Arg Time) : Retains now cell cell := by
  rcases cell with _ | ⟨value, _ | deadline⟩
  · exact nofun
  · rfl
  · exact ⟨deadline, rfl, by norm_num⟩

/-- Both cells read on the monotonic clock. -/
theorem Retains.toMonotonic (retains : Retains clock.time cell copy) :
    Retains clock.monotonic (mapDeadline clock.toMonotonic cell)
      (mapDeadline clock.toMonotonic copy) := by
  rcases cell with _ | ⟨value, _ | deadline⟩
  · intro content member
    obtain ⟨original, held, rfl⟩ := Option.map_eq_some_iff.mp member
    obtain ⟨deadline, same, soon⟩ := retains original held
    refine ⟨clock.toMonotonic deadline, by rw [same]; rfl, ?_⟩
    unfold Clock.toMonotonic
    linarith
  · obtain rfl : copy = some (value, none) := retains
    rfl
  · obtain ⟨other, rfl, near⟩ := retains
    refine ⟨clock.toMonotonic other, rfl, ?_⟩
    unfold Clock.toMonotonic
    simpa using near

/-- A deadline that is over or at least a millisecond away, and another one near it. -/
theorem retains_of_near (value : Arg) (near : Near deadline other)
    (apart : deadline ≤ now ∨ now + 1 / 1000 ≤ deadline) :
    Retains now (live now (some (value, some deadline))) (live now (some (value, some other))) := by
  have bounds := abs_lt.mp near
  rw [ExpiringMap.live_some_some, ExpiringMap.live_some_some]
  rcases apart with passed | ahead
  · rw [if_neg (not_lt_of_ge passed)]
    split_ifs
    · rintro content ⟨⟩
      exact ⟨other, rfl, by linarith⟩
    · exact nofun
  · rw [if_pos (by linarith), if_pos (by linarith)]
    refine ⟨other, rfl, ?_⟩
    rw [abs_sub_comm]
    exact near.le

/-- The same, for the deadline that a command gives to what it finds. -/
theorem retains_setDeadline (cell : Cell Arg Time) (near : Near deadline other)
    (apart : deadline ≤ now ∨ now + 1 / 1000 ≤ deadline) :
    Retains now (live now ((Action.setDeadline deadline).apply now cell))
      (live now ((Action.setDeadline other).apply now cell)) := by
  simp only [Action.apply]
  cases live now cell with
  | none => exact retains_refl now _
  | some content => exact retains_of_near content.1 near apart

end Retention

section Records

/-- Records dispatched in order. -/
def dispatchRecords (clock : Clock) (records : List (List Arg)) (store : Store) : Store :=
  records.foldl (fun store record => (dispatch clock store record).2) store

/-- Every record is accepted in its turn. -/
def AllAccepted (clock : Clock) : List (List Arg) → Store → Prop
  | [], _ => True
  | record :: rest, store =>
      Accepted (dispatch clock store record).1 ∧
        AllAccepted clock rest (dispatch clock store record).2

/-- The records are accepted and leave what the command left, up to a millisecond. -/
structure FaithfulRecords (clock : Clock) (store : Store) (command : List Arg)
    (records : List (List Arg)) : Prop where
  accepted : AllAccepted clock records store
  retains : ∀ key,
    Retains clock.monotonic (((dispatch clock store command).2.live clock.monotonic).get? key)
      (((dispatchRecords clock records store).live clock.monotonic).get? key)

variable {clock : Clock} {store : Store} {command : List Bytes} {key : Arg}

/-- What the effects retain on the wall clock, the stores retain. -/
theorem faithfulRecords_of_effects {records : List (List Arg)} {copies : PlainMap}
    (uncapped : Uncapped store) (accepted : AllAccepted clock records store)
    (represents : Represents clock (dispatchRecords clock records store) copies)
    (retains : ∀ key, Retains clock.time
      (live clock.time (applyAll clock.time
        (commandEffects clock.time (store.onWall clock) (received command))
          (store.onWall clock) key))
      (live clock.time (copies key))) :
    FaithfulRecords clock store (received command) records := by
  refine ⟨accepted, fun key => ?_⟩
  rw [get?_dispatch uncapped, represents.get? key]
  exact (retains key).toMonotonic

/-- A record that gives a key a deadline. -/
theorem accepted_deadlineRecord {milliseconds : Int} (loggable : Loggable milliseconds) :
    Accepted (dispatch clock store (deadlineRecord key milliseconds)).1 ∧
      ∀ plain, commandEffects clock.time plain (deadlineRecord key milliseconds) =
        [.act key (.setDeadline (ofMs milliseconds))] := by
  have small : milliseconds.natAbs < 10 ^ maxStrDigits :=
    lt_of_lt_of_le loggable (Nat.pow_le_pow_right (by decide) (by decide))
  have read : intOfText (toText (.ofInt milliseconds)) = some milliseconds :=
    intOfText_intText small
  have fits := not_quotientOverflows_of_loggable loggable
  have known : Command.ofCommand (deadlineRecord key milliseconds) = some .pexpireat :=
    ofCommand_ofString (by decide +kernel) _
  constructor
  · refine @accepted_of_known clock store _ _
      (.bool (store.expireAtUnix clock.monotonic clock.time key ((milliseconds : Time) / 1000)).1)
      known ?_
    simp [Command.handler, deadlineRecord, cmdPexpireat, read, fits]
  · intro plain
    rw [commandEffects, known]
    change deadlineEffects [key, .ofInt milliseconds] = _
    simp [deadlineEffects, read, fits, ofMs]

/-- The record of a lifetime, against the lifetime itself. -/
theorem faithful_deadlineRecord (uncapped : Uncapped store) {deadline : Time}
    {milliseconds : Int} (loggable : Loggable milliseconds)
    (near : Near deadline (ofMs milliseconds))
    (apart : deadline ≤ clock.time ∨ clock.time + 1 / 1000 ≤ deadline)
    (effects : commandEffects clock.time (store.onWall clock) (received command) =
      [.act key (.setDeadline deadline)]) :
    FaithfulRecords clock store (received command) [deadlineRecord key milliseconds] := by
  obtain ⟨accepted, effectsThere⟩ :=
    @accepted_deadlineRecord clock store key milliseconds loggable
  have after := represents_dispatch (uncapped.represents clock) (deadlineRecord key milliseconds)
  rw [effectsThere] at after
  refine faithfulRecords_of_effects uncapped ⟨accepted, trivial⟩ after fun other => ?_
  rw [effects, ExpiringMap.applyAll_cons, ExpiringMap.applyAll_nil, ExpiringMap.applyAll_cons,
    ExpiringMap.applyAll_nil]
  by_cases same : key = other
  · subst other
    rw [Effect.apply_act_self, Effect.apply_act_self]
    exact retains_setDeadline _ near apart
  · rw [Effect.apply_act_of_ne _ _ _ same, Effect.apply_act_of_ne _ _ _ same]
    exact retains_refl _ _

/-- The plain `SET` that stands for one with options. -/
theorem accepted_setRecord (key value : Arg) :
    Accepted (dispatch clock store [.ofString "SET", key, value]).1 ∧
      ∀ plain, commandEffects clock.time plain [.ofString "SET", key, value] =
        [.act key (.write value none)] := by
  have known := ofCommand_set [key, value]
  have parsed : parseSet [key, value] = .ok ⟨key, value, false, false, false, none⟩ := rfl
  exact ⟨(accepted_set_iff known).mpr ⟨_, parsed⟩,
    fun plain => commandEffects_set known parsed rfl⟩

/-- The records of a `SET`, against the `SET`. -/
theorem faithful_setRecords (uncapped : Uncapped store) {opts : SetOptions} {args : List Arg}
    (parsed : parseSet args = .ok opts)
    (effects : commandEffects clock.time (store.onWall clock) (received command) =
      [.act opts.key (.write opts.value (opts.ttl.map (clock.time + ·)))]) :
    FaithfulRecords clock store (received command) (setRecords clock.time opts) := by
  obtain ⟨accepted, written⟩ := @accepted_setRecord clock store opts.key opts.value
  have stored := represents_dispatch (uncapped.represents clock)
    [.ofString "SET", opts.key, opts.value]
  rw [written] at stored
  unfold setRecords
  cases lifetime : opts.ttl with
  | none =>
      rw [lifetime] at effects
      refine faithfulRecords_of_effects uncapped ⟨accepted, trivial⟩ stored fun key => ?_
      rw [effects]
      exact retains_refl _ _
  | some ttl =>
      obtain ⟨positive, bounded, milliseconds, whole⟩ := (parseSet_ok parsed).2 ttl lifetime
      have loggable : Loggable (deadlineMs clock.time ttl) :=
        loggable_deadlineMs clock (by rw [abs_of_pos positive]; exact bounded.le)
      have atLeast : 1 / 1000 ≤ ttl := by
        have : (0 : Time) < milliseconds := by rw [← whole]; positivity
        have : (1 : Time) ≤ milliseconds := by exact_mod_cast this
        linarith
      obtain ⟨acceptedThen, dated⟩ := @accepted_deadlineRecord clock
        (dispatch clock store [.ofString "SET", opts.key, opts.value]).2 opts.key _ loggable
      have after := represents_dispatch stored
        (deadlineRecord opts.key (deadlineMs clock.time ttl))
      -- Writing and then setting the deadline is writing with the deadline.
      rw [dated, ExpiringMap.applyAll_cons, ExpiringMap.applyAll_nil, ExpiringMap.applyAll_cons,
        ExpiringMap.applyAll_nil, Effect.apply_setDeadline_write] at after
      refine faithfulRecords_of_effects uncapped ⟨accepted, acceptedThen, trivial⟩ after
        fun key => ?_
      rw [effects, lifetime, ExpiringMap.applyAll_cons, ExpiringMap.applyAll_nil]
      by_cases same : opts.key = key
      · subst key
        rw [Effect.apply_act_self, Effect.apply_act_self]
        exact retains_of_near opts.value (near_deadlineMs clock.time ttl)
          (Or.inr (by linarith))
      · rw [Effect.apply_act_of_ne _ _ _ same, Effect.apply_act_of_ne _ _ _ same]
        exact retains_refl _ _

/-- A number of units of time is over or at least a millisecond away. -/
theorem apart_of_units (time : Time) {perSecond : Time} (positive : 0 < perSecond)
    (coarse : perSecond ≤ 1000) (number : Int) :
    time + number / perSecond ≤ time ∨ time + 1 / 1000 ≤ time + number / perSecond := by
  rcases le_or_gt number 0 with nonpositive | ahead
  · left
    have : (number : Time) ≤ 0 := by exact_mod_cast nonpositive
    have := div_nonpos_of_nonpos_of_nonneg this positive.le
    linarith
  · right
    have : (1 : Time) ≤ number := by exact_mod_cast ahead
    have : 1 / 1000 ≤ (number : Time) / perSecond := by
      rw [div_le_div_iff₀ (by norm_num) positive]
      linarith
    linarith

/-- The record of a command that gives a key a lifetime. -/
theorem faithful_lifetime (uncapped : Uncapped store) {found : Command} {perSecond : Time}
    {amount : Arg} {number milliseconds : Int}
    (known : Command.ofCommand (received command) = some found)
    (counts : found.effects clock.time (store.onWall clock) (received command).tail =
      lifetimeEffects perSecond clock.time [key, amount])
    (positive : 0 < perSecond) (coarse : perSecond ≤ 1000)
    (parsed : parseInt amount = .ok number) (loggable : Loggable milliseconds)
    (near : Near (clock.time + number / perSecond) (ofMs milliseconds)) :
    FaithfulRecords clock store (received command) [deadlineRecord key milliseconds] := by
  refine faithful_deadlineRecord uncapped loggable near
    (apart_of_units clock.time positive coarse number) ?_
  rw [commandEffects, known]
  dsimp only
  rw [counts, lifetimeEffects, parsed]

/-- The records of an effective write are faithful to it at the instant of logging. -/
theorem faithful_toAofCommands {records : List (List Arg)} (uncapped : Uncapped store)
    (effective : Effective clock store command)
    (recorded : toAofCommands clock.time (received command) = .ok records) :
    FaithfulRecords clock store (received command) records := by
  obtain ⟨found, reply, known, done⟩ := accepted_known effective.accepted
  have verbatim (same : records = [received command]) :
      FaithfulRecords clock store (received command) records := by
    subst same
    exact ⟨⟨effective.accepted, trivial⟩, fun key => retains_refl _ _⟩
  cases command with
  | nil => cases known
  | cons head args =>
      have named : found.name = upper (toText (.bytes head)) :=
        Command.ofName_eq_some_iff.mp known
      change toAofCommands clock.time (.bytes head :: received args) = .ok records at recorded
      unfold toAofCommands at recorded
      dsimp only at recorded
      rw [← named] at recorded
      cases found with
      | set =>
          rw [if_pos (by decide)] at recorded
          obtain ⟨opts, parsed⟩ : ∃ opts, parseSet (received args) = .ok opts :=
            parseSet_of_ok done
          have recordsEq : records = setRecords clock.time opts := by
            simp only [parsed] at recorded
            unfold setRecords
            cases lifetime : opts.ttl with
            | none | some ttl =>
                rw [lifetime] at recorded
                cases recorded
                rfl
          rw [recordsEq]
          exact faithful_setRecords uncapped parsed
            (effective.commandEffects uncapped known parsed)
      | expire =>
          rw [if_neg (by decide), if_pos (by decide)] at recorded
          rcases args with _ | ⟨key, _ | ⟨amount, _ | ⟨_, _⟩⟩⟩
          case cons.cons.nil =>
            obtain ⟨number, parsed⟩ := lifetime_ok done
            simp only [received, List.map_cons, List.map_nil, loggedNumber,
              (parseInt_ok parsed).1] at recorded
            cases recorded
            have loggable : Loggable (deadlineMs clock.time number) :=
              loggable_deadlineMs clock (abs_intCast_le (parseInt_ok parsed).2)
            refine faithful_lifetime uncapped known rfl one_pos (by norm_num) parsed loggable ?_
            rw [div_one]
            exact near_deadlineMs clock.time number
          all_goals cases done
      | pexpire =>
          rw [if_neg (by decide), if_neg (by decide), if_pos (by decide)] at recorded
          rcases args with _ | ⟨key, _ | ⟨amount, _ | ⟨_, _⟩⟩⟩
          case cons.cons.nil =>
            obtain ⟨number, parsed⟩ := lifetime_ok done
            simp only [received, List.map_cons, List.map_nil, loggedNumber,
              (parseInt_ok parsed).1] at recorded
            cases recorded
            exact faithful_lifetime uncapped known rfl (by norm_num) le_rfl parsed
              (loggable_truncate clock (parseInt_ok parsed).2) (near_truncate clock.time number)
          all_goals cases done
      | mset | incr | decr | incrby | decrby | del | pexpireat | persist | flushdb | ping
      | echo | get | mget | existsKey | ttl | keys | dbsize =>
          refine verbatim ?_
          rw [if_neg (by decide), if_neg (by decide), if_neg (by decide)] at recorded
          cases recorded
          rfl

/-- What a server without a memory limit logs has records, and they are faithful to
the command at the instant of logging. -/
theorem logged_form_faithful {server : Server} {authed : Bool}
    (uncapped : Uncapped server.store) (logs : server.Logs clock authed command) :
    ∃ records, toAofCommands clock.time (received command) = .ok records ∧
      FaithfulRecords clock server.store (received command) records := by
  have effective := logs.effective uncapped
  obtain ⟨records, recorded⟩ := toAofCommands_of_accepted effective.accepted clock.time
  exact ⟨records, recorded, faithful_toAofCommands uncapped effective recorded⟩

theorem logged_form_faithful_shortSet :
    ∃ records, toAofCommands Clock.epoch.time (received shortSet) = .ok records ∧
      FaithfulRecords .epoch emptyServer.store (received shortSet) records :=
  @logged_form_faithful .epoch shortSet emptyServer true (uncapped_init .allkeysLru)
    (by decide +kernel)

end Records

end MiniCache
