import MiniCache.PrimaryRuns

/-!
# Restarting from the log

The log of a primary is replayed as a whole at the moment of the restart, so every
logged command meets the deadlines logged before it as they stand at that moment.
The replayed store has the contents of the original one as long as no logged
command, reading a key that has a deadline, found the key live when it ran while
the deadline is over at the restart, or the other way round.
-/

namespace MiniCache

open ExpiringMap (Effect Follows applyAll noteAll)

/-- The deadline that the log has for each key. -/
abbrev Ledger := Arg → Option Time

section Runs

def Clock.offset (clock : Clock) : Time := clock.monotonic - clock.time

/-- A primary that has just been started with an empty log and no memory limit. -/
structure FreshPrimary (server : Server) : Prop where
  store : ∃ policy, server.store = Store.init 0 policy
  replicaOf : server.replicaOf = none
  content : server.aof.map AofLog.content = some []

/-- A command that a client can send, under an ASCII name. -/
def ServerStep.Client : ServerStep → Prop
  | .command _ request => AsciiNamed request ∧ Deliverable request
  | .sweep => True

instance : DecidablePred ServerStep.Client := fun step => by
  cases step <;> unfold ServerStep.Client <;> infer_instance

/-- The steps of one process from one moment to another: its two clocks run at a
constant distance and never back. -/
def Paced (offset since : Time) : List (Clock × ServerStep) → Time → Prop
  | [], moment => since ≤ moment
  | (clock, step) :: rest, moment =>
      clock.offset = offset ∧ since ≤ clock.time ∧ step.Client ∧
        Paced offset clock.time rest moment

instance (offset since : Time) (steps : List (Clock × ServerStep)) (moment : Time) :
    Decidable (Paced offset since steps moment) := by
  induction steps generalizing since with
  | nil => unfold Paced; infer_instance
  | cons entry rest ih => unfold Paced; infer_instance

/-- The records of a step. -/
def ServerStep.records (clock : Clock) (server : Server) : ServerStep → List (List Arg)
  | .command authed request =>
      if server.Logs clock authed request then
        match toAofCommands clock.time (received request) with
        | .ok records => records
        | .error _ => []
      else []
  | .sweep => []

/-- The effects of a step as its records tell them. -/
def ServerStep.effects (clock : Clock) (server : Server) :
    ServerStep → List (Effect Arg Arg Time)
  | .command authed request =>
      if server.Logs clock authed request then
        loggedEffects clock.time (server.finds clock) (received request)
      else []
  | .sweep => []

/-- The deadlines after a step: its records change them as they say, where it
found its keys as the server did. -/
def ledgerStep (clock : Clock) (server : Server) (ledger : Ledger) (step : ServerStep) :
    Ledger :=
  noteAll (server.finds clock) (step.effects clock server) ledger

/-- A step whose records a replay at a moment takes as the server took them. -/
def SettledStep (moment : Time) (clock : Clock) (server : Server) (ledger : Ledger)
    (step : ServerStep) : Prop :=
  ∀ effect ∈ step.effects clock server, effect.Settled moment (server.finds clock) ledger

instance (moment : Time) (clock : Clock) (server : Server) (ledger : Ledger) :
    DecidablePred (SettledStep moment clock server ledger) := fun step => by
  unfold SettledStep
  infer_instance

/-- All steps of a run are taken so. -/
def Settles (moment : Time) : Server → Ledger → List (Clock × ServerStep) → Prop
  | _, _, [] => True
  | server, ledger, (clock, step) :: rest =>
      SettledStep moment clock server ledger step ∧
        Settles moment (server.step clock step) (ledgerStep clock server ledger step) rest

instance (moment : Time) (server : Server) (ledger : Ledger)
    (steps : List (Clock × ServerStep)) : Decidable (Settles moment server ledger steps) := by
  induction steps generalizing server ledger with
  | nil => unfold Settles; infer_instance
  | cons entry rest ih => unfold Settles; infer_instance

/-- The deadlines at the end of a run. -/
def ledgerRun : Server → Ledger → List (Clock × ServerStep) → Ledger
  | _, ledger, [] => ledger
  | server, ledger, (clock, step) :: rest =>
      ledgerRun (server.step clock step) (ledgerStep clock server ledger step) rest

/-- The records of a run. -/
def runRecords : Server → List (Clock × ServerStep) → List (List Bytes)
  | _, [] => []
  | server, (clock, step) :: rest =>
      (step.records clock server).map sent ++ runRecords (server.step clock step) rest

/-- What the records of a run tell. -/
def runEffects : Server → List (Clock × ServerStep) → List (Effect Arg Arg Time)
  | _, [] => []
  | server, (clock, step) :: rest =>
      step.effects clock server ++ runEffects (server.step clock step) rest

end Runs

section Invariant

/-- What holds along a run: the store is a plain map, and the log tells some
effects. -/
structure Recording (offset since : Time) (server : Server) (plain : PlainMap)
    (log : List (List Bytes)) (effects : List (Effect Arg Arg Time)) : Prop where
  replicaOf : server.replicaOf = none
  represents : ∀ clock : Clock, clock.offset = offset → since ≤ clock.time →
    Represents clock server.store plain
  content : server.aof.map AofLog.content = some (logOf log)
  tells : LogTells log effects

/-- Applied all at one moment, these effects leave a copy that follows the map. -/
structure Recorded (offset moment since : Time) (server : Server) (ledger : Ledger)
    (plain : PlainMap) (log : List (List Bytes)) (effects : List (Effect Arg Arg Time)) : Prop
    extends Recording offset since server plain log effects where
  follows : ∀ key, Follows Near moment (plain key) (ledger key)
    (applyAll moment effects (fun _ => none) key)

variable {offset moment since : Time} {server : Server} {ledger : Ledger}
  {plain : PlainMap} {log : List (List Bytes)} {effects : List (Effect Arg Arg Time)}

theorem FreshPrimary.recording (fresh : FreshPrimary server) (offset since : Time) :
    Recording offset since server (fun _ => none) [] [] := by
  obtain ⟨policy, store⟩ := fresh.store
  refine ⟨fresh.replicaOf, ?_, fresh.content, logTells_nil⟩
  intro clock _ _
  rw [store]
  exact represents_init clock policy

theorem FreshPrimary.recorded (fresh : FreshPrimary server) (offset moment since : Time) :
    Recorded offset moment since server (fun _ => none) (fun _ => none) [] [] :=
  ⟨fresh.recording offset since, fun _ => ExpiringMap.follows_of_dead none rfl⟩

theorem finds_eq {clock : Clock} (represents : Represents clock server.store plain) (key : Arg) :
    server.finds clock key = (ExpiringMap.live clock.time (plain key)).isSome :=
  represents.isSome key

/-- One step adds to the log what tells its effects. -/
theorem Recording.step (recording : Recording offset since server plain log effects)
    {clock : Clock} {step : ServerStep} (sameOffset : clock.offset = offset)
    (inOrder : since ≤ clock.time) (client : step.Client) :
    ∃ done : List (Effect Arg Arg Time),
      List.Forall₂ (ExpiringMap.EffectTracks Near) done (step.effects clock server) ∧
      Recording offset clock.time (server.step clock step) (applyAll clock.time done plain)
        (log ++ (step.records clock server).map sent) (effects ++ step.effects clock server) := by
  have represents := recording.represents clock sameOffset inOrder
  have later {store : Store} {plain : PlainMap} (now : Represents clock store plain)
      (other : Clock) (same : other.offset = offset) (after : clock.time ≤ other.time) :
      Represents other store plain :=
    now.later (same.trans sameOffset.symm) after
  cases step with
  | sweep =>
      refine ⟨[], by simp [ServerStep.effects], recording.replicaOf,
        later ((observes_sweep clock.monotonic server.store).represents represents), ?_, ?_⟩
      · rw [ServerStep.records, List.map_nil, List.append_nil]
        exact recording.content
      · simpa [ServerStep.records, ServerStep.effects] using recording.tells
  | command authed command =>
      obtain ⟨replicaOf, idle | logged⟩ :=
        idle_or_logged authed represents client.1 client.2
      · have silent : ¬ server.Logs clock authed command := not_not.mpr idle.propagated
        rw [ServerStep.effects, ServerStep.records, if_neg silent, if_neg silent,
          List.map_nil, List.append_nil, List.append_nil]
        exact ⟨[], List.Forall₂.nil, replicaOf.trans recording.replicaOf,
          later idle.represents, idle.content.trans recording.content, recording.tells⟩
      · have logs : server.Logs clock authed command := by
          rw [Server.Logs, logged.propagated]
          exact List.cons_ne_nil _ _
        obtain ⟨records, recordsEq, tells, content⟩ := logged.records
        rw [ServerStep.effects, ServerStep.records, if_pos logs, if_pos logs, recordsEq]
        refine ⟨_, tracks_loggedEffects (finds_eq represents) (received command),
          replicaOf.trans recording.replicaOf, later logged.represents, ?_,
          recording.tells.append tells⟩
        have before := recording.content
        simp only [Server.step]
        rw [content]
        cases aof : server.aof with
        | none => simp [aof] at before
        | some file =>
            rw [aof] at before
            simp only [Option.map_some, Option.some.injEq] at before ⊢
            rw [before, logOf, logOf, logOf, List.flatMap_append]

/-- So does a whole run. -/
theorem Recording.run {steps : List (Clock × ServerStep)}
    (recording : Recording offset since server plain log effects)
    (paced : Paced offset since steps moment) :
    ∃ plain, Recording offset moment (server.run steps) plain
      (log ++ runRecords server steps) (effects ++ runEffects server steps) := by
  induction steps generalizing server plain log effects since with
  | nil =>
      rw [runRecords, runEffects, List.append_nil, List.append_nil]
      exact ⟨plain, recording.replicaOf,
        fun clock same after => recording.represents clock same (le_trans paced after),
        recording.content, recording.tells⟩
  | cons entry rest ih =>
      obtain ⟨clock, step⟩ := entry
      obtain ⟨same, inOrder, client, pacedRest⟩ := paced
      obtain ⟨done, -, next⟩ := recording.step same inOrder client
      rw [runRecords, runEffects, ← List.append_assoc, ← List.append_assoc]
      exact ih next pacedRest

theorem lone_effects (clock : Clock) (server : Server) (step : ServerStep) :
    ExpiringMap.Lone (step.effects clock server) := by
  cases step with
  | sweep => exact lone_of_length (by simp [ServerStep.effects])
  | command authed command =>
      rw [ServerStep.effects]
      split_ifs
      · exact lone_loggedEffects _ _ _
      · exact lone_of_length (Nat.zero_le 1)

/-- One step keeps the copy following. -/
theorem Recorded.step (recorded : Recorded offset moment since server ledger plain log effects)
    {clock : Clock} {step : ServerStep} (sameOffset : clock.offset = offset)
    (inOrder : since ≤ clock.time) (client : step.Client)
    (settled : SettledStep moment clock server ledger step) :
    ∃ plain, Recorded offset moment clock.time (server.step clock step)
      (ledgerStep clock server ledger step) plain
      (log ++ (step.records clock server).map sent) (effects ++ step.effects clock server) := by
  have represents := recorded.represents clock sameOffset inOrder
  obtain ⟨done, tracks, next⟩ := recorded.toRecording.step sameOffset inOrder client
  refine ⟨_, next, fun key => ?_⟩
  rw [ExpiringMap.applyAll_append]
  exact ExpiringMap.follows_applyAll tracks (lone_effects clock server step)
    (finds_eq represents) settled recorded.follows key

theorem Recorded.run {steps : List (Clock × ServerStep)}
    (recorded : Recorded offset moment since server ledger plain log effects)
    (paced : Paced offset since steps moment) (settles : Settles moment server ledger steps) :
    ∃ plain, Recorded offset moment moment (server.run steps)
      (ledgerRun server ledger steps) plain
      (log ++ runRecords server steps) (effects ++ runEffects server steps) := by
  induction steps generalizing server ledger plain log effects since with
  | nil =>
      rw [runRecords, runEffects, List.append_nil, List.append_nil]
      exact ⟨plain, ⟨recorded.replicaOf,
        fun clock same after => recorded.represents clock same (le_trans paced after),
        recorded.content, recorded.tells⟩, recorded.follows⟩
  | cons entry rest ih =>
      obtain ⟨clock, step⟩ := entry
      obtain ⟨same, inOrder, client, pacedRest⟩ := paced
      obtain ⟨plain, next⟩ := recorded.step same inOrder client settles.1
      rw [runRecords, runEffects, ← List.append_assoc, ← List.append_assoc]
      exact ih next pacedRest settles.2

/-- The invariant at the end of a run, with the state that the replay leaves. -/
theorem replay_of_recorded {restart : Clock}
    (recorded : Recorded offset restart.time restart.time server ledger plain log effects)
    (policy : Policy) {file : AofFile}
    (content : server.aof.map AofLog.content = some file.content) :
    (∃ count, (replay restart (Store.init 0 policy) file).1 = .ok count) ∧
      ∀ key, (((replay restart (Store.init 0 policy) file).2.1).live restart.monotonic).get? key =
        ExpiringMap.mapDeadline restart.toMonotonic (ExpiringMap.live restart.time
          ((plain key).map fun content => (content.1, ledger key))) := by
  have same : file.content = logOf log :=
    Option.some.inj (content.symm.trans recorded.content)
  have replayed := recorded.tells.acts (represents_init restart policy)
  have done := @replay_logOf restart (Store.init 0 policy) _ recorded.tells.sendable rfl
    recorded.tells.fine file same
  rw [done]
  refine ⟨⟨_, rfl⟩, fun key => ?_⟩
  rw [drain_of_nil replayed.drained, replayed.get?, (recorded.follows key).same]

end Invariant

section Restart

/-- The clocks of an earlier process at the same moment. -/
def Clock.withOffset (clock : Clock) (offset : Time) : Clock :=
  ⟨clock.time + offset, clock.time, clock.lower, clock.upper⟩

/-- After a restart, what would be live on the original store, for more than a
millisecond, is live with the same value and a deadline near the same. -/
def LosesNothing (server : Server) (offset : Time) (steps : List (Clock × ServerStep))
    (restart : Clock) : Prop :=
  ∀ policy file, (server.run steps).aof.map AofLog.content = some file.content →
    let original := (server.run steps).store
    let outcome := replay restart (Store.init 0 policy) file
    (∃ count, outcome.1 = .ok count) ∧
      ∀ key value deadline,
        (original.live (restart.time + offset)).get? key = some (value, deadline) →
        (∀ limit ∈ deadline, restart.time + offset + 1 / 1000 < limit) →
        ∃ kept, (outcome.2.1.live restart.monotonic).get? key = some (value, kept) ∧
          Option.Rel (fun limit keptLimit =>
            Near (limit - offset) (keptLimit - restart.offset)) deadline kept

/-- After a restart, nothing is live that is absent from the original store or has
been expired there for more than a millisecond. -/
def RevivesNothing (server : Server) (offset : Time) (steps : List (Clock × ServerStep))
    (restart : Clock) : Prop :=
  ∀ policy file, (server.run steps).aof.map AofLog.content = some file.content →
    let original := (server.run steps).store
    let outcome := replay restart (Store.init 0 policy) file
    ∀ key, (∀ entry, original.data.get? key = some entry →
        ∃ limit, entry.expireAt = some limit ∧ limit < restart.time + offset - 1 / 1000) →
      (outcome.2.1.live restart.monotonic).get? key = none

variable {server : Server} {offset start : Time} {steps : List (Clock × ServerStep)}
  {restart : Clock}

theorem toMonotonic_withOffset (clock : Clock) (offset moment : Time) :
    (clock.withOffset offset).toMonotonic moment = moment + offset := by
  unfold Clock.toMonotonic Clock.withOffset
  ring

theorem offset_withOffset (clock : Clock) (offset : Time) :
    (clock.withOffset offset).offset = offset := by
  unfold Clock.offset Clock.withOffset
  ring

/-- Deadlines that are near stay so on the clocks of the two processes. -/
theorem near_toMonotonic (restart : Clock) (offset : Time) {limit keptLimit : Time}
    (close : Near limit keptLimit) :
    Near ((restart.withOffset offset).toMonotonic limit - offset)
      (restart.toMonotonic keptLimit - restart.offset) := by
  have limitEq : (restart.withOffset offset).toMonotonic limit - offset = limit := by
    rw [toMonotonic_withOffset, add_sub_cancel_right]
  have keptEq : restart.toMonotonic keptLimit - restart.offset = keptLimit :=
    add_sub_cancel_right keptLimit _
  rwa [limitEq, keptEq]

/-- A restart loses nothing when every logged command is taken as it was. -/
theorem losesNothing_of_settles (fresh : FreshPrimary server)
    (paced : Paced offset start steps restart.time)
    (settles : Settles restart.time server (fun _ => none) steps) :
    LosesNothing server offset steps restart := by
  intro policy file content original outcome
  obtain ⟨plain, recorded⟩ :=
    (fresh.recorded offset restart.time start).run paced settles
  obtain ⟨count, kept⟩ := replay_of_recorded recorded policy content
  refine ⟨count, ?_⟩
  intro key value deadline present lasting
  have represents := recorded.represents (restart.withOffset offset)
    (offset_withOffset restart offset) (le_refl _)
  rw [show (original.live (restart.time + offset)).get? key = _ from represents.get? key]
    at present
  obtain ⟨⟨value, limit⟩, live, same⟩ := Option.map_eq_some_iff.mp present
  obtain ⟨rfl, rfl⟩ := Prod.mk.inj same
  obtain ⟨cell, -⟩ := ExpiringMap.live_eq_some_iff.mp live
  have told := (recorded.follows key).told _ cell
  rw [kept key, cell, Option.map_some]
  generalize ledgerRun server (fun _ => none) steps key = noted at told
  cases told with
  | none => exact ⟨none, by rw [ExpiringMap.live_some_none]; rfl, Option.Rel.none⟩
  | @some limit noted close =>
      have remains := lasting _ rfl
      rw [toMonotonic_withOffset] at remains
      have bounds := abs_lt.mp close
      have alive : restart.time < noted := by linarith
      rw [ExpiringMap.live_some_some, if_pos alive]
      exact ⟨_, rfl, Option.Rel.some (near_toMonotonic restart offset close)⟩

/-- A restart revives nothing when, moreover, no logged deadline of a key that has
been removed is still to come. -/
theorem revivesNothing_of_settles (fresh : FreshPrimary server)
    (paced : Paced offset start steps restart.time)
    (settles : Settles restart.time server (fun _ => none) steps)
    (removed : ∀ key, (server.run steps).store.data.get? key = none →
      ∀ limit ∈ ledgerRun server (fun _ => none) steps key, limit ≤ restart.time) :
    RevivesNothing server offset steps restart := by
  intro policy file content original outcome key gone
  obtain ⟨plain, recorded⟩ :=
    (fresh.recorded offset restart.time start).run paced settles
  obtain ⟨-, kept⟩ := replay_of_recorded recorded policy content
  have represents := recorded.represents (restart.withOffset offset)
    (offset_withOffset restart offset) (le_refl _)
  have held := represents.holds key
  rw [kept key]
  cases cell : plain key with
  | none => rfl
  | some content =>
      obtain ⟨value, deadline⟩ := content
      have told := (recorded.follows key).told _ cell
      have ends := removed key
      rw [cell, Store.plain_eq] at held
      rw [Option.map_some]
      generalize ledgerRun server (fun _ => none) steps key = noted at told ends
      have absent (purged : (original.data.get? key).map Entry.content = none) :
          original.data.get? key = none := by simpa using purged
      cases told with
      | none =>
          rcases held with same | ⟨-, dead⟩
          · obtain ⟨entry, present, contentEq⟩ := Option.map_eq_some_iff.mp same
            obtain ⟨limit, expires, -⟩ := gone entry present
            rw [Entry.content, expires] at contentEq
            cases contentEq
          · rw [ExpiringMap.mapDeadline, Option.map_some, Option.map_none,
              ExpiringMap.live_some_none] at dead
            cases dead
      | @some limit noted close =>
          have past : noted ≤ restart.time := by
            rcases held with same | ⟨purged, -⟩
            · obtain ⟨entry, present, contentEq⟩ := Option.map_eq_some_iff.mp same
              obtain ⟨last, expires, passed⟩ := gone entry present
              have lastEq : last = (restart.withOffset offset).toMonotonic limit := by
                rw [Entry.content, expires] at contentEq
                exact Option.some.inj (Prod.mk.inj contentEq).2
              rw [lastEq, toMonotonic_withOffset] at passed
              have bounds := abs_lt.mp close
              linarith
            · exact ends (absent purged) noted rfl
          rw [ExpiringMap.live_some_some, if_neg (not_lt_of_ge past)]
          rfl

theorem freshPrimary_init (policy : Policy) :
    FreshPrimary (Server.init 0 policy none (some .empty)) :=
  ⟨⟨policy, rfl⟩, rfl, rfl⟩

/-- A command given by literals. -/
def request (words : List String) : List Bytes := words.map fun word => encodeUtf8 word.toList

/-- The file that a server leaves. -/
def Server.logFile (server : Server) : AofFile :=
  ⟨(server.aof.map AofLog.content).getD [], none⟩

/-- A newly started primary with an empty log. -/
def emptyPrimary : Server := Server.init 0 .noeviction none (some .empty)

/-- A key whose lifetime is extended before it ends. -/
def extendedKey : List (Clock × ServerStep) :=
  [(.epoch, .command true (request ["SET", "k", "v", "EX", "10"])),
    (.afterEpoch 1000, .command true (request ["EXPIRE", "k", "20"]))]

theorem losesNothing_extendedKey : LosesNothing emptyPrimary 0 extendedKey (.afterEpoch 5000) :=
  @losesNothing_of_settles emptyPrimary 0 0 extendedKey (.afterEpoch 5000)
    (freshPrimary_init .noeviction) (by decide +kernel) (by decide +kernel)

/-- A key with a lifetime that is persisted before it ends. -/
def persistedKey : List (Clock × ServerStep) :=
  [(.epoch, .command true (request ["SET", "k", "v", "EX", "10"])),
    (.afterEpoch 1000, .command true (request ["PERSIST", "k"]))]

/-- Its log, replayed after that end, drops the key before it persists it. -/
theorem not_losesNothing_persistedKey :
    FreshPrimary emptyPrimary ∧ Paced 0 0 persistedKey (Clock.afterEpoch 20000).time ∧
      ¬ LosesNothing emptyPrimary 0 persistedKey (.afterEpoch 20000) := by
  refine ⟨freshPrimary_init .noeviction, by decide +kernel, ?_⟩
  intro keeps
  obtain ⟨-, lives⟩ := keeps .noeviction (emptyPrimary.run persistedKey).logFile
    (by decide +kernel)
  obtain ⟨kept, live, -⟩ := lives (.bytes [107]) (.bytes [118]) none (by decide +kernel)
    (by simp)
  have gone : ((replay (.afterEpoch 20000) (Store.init 0 .noeviction)
      (emptyPrimary.run persistedKey).logFile).2.1.live
        (Clock.afterEpoch 20000).monotonic).get? (.bytes [107]) = none := by
    decide +kernel
  rw [gone] at live
  cases live

/-- A key with a lifetime, and the deadlines that the log has then. -/
def timedKey : List (Clock × ServerStep) :=
  [(.epoch, .command true (request ["SET", "k", "v", "EX", "10"]))]

theorem ledgerRun_timedKey (key : Arg) :
    ledgerRun emptyPrimary (fun _ => none) timedKey key =
      if .bytes [107] = key then some (ofMs (deadlineMs 0 10)) else none := by
  have logs : emptyPrimary.Logs .epoch true (request ["SET", "k", "v", "EX", "10"]) := by
    decide +kernel
  have known : Command.ofCommand (received (request ["SET", "k", "v", "EX", "10"])) =
      some .set := by
    decide +kernel
  have parsed : parseSet (received (request ["SET", "k", "v", "EX", "10"])).tail =
      .ok ⟨.bytes [107], .bytes [118], false, false, false, some 10⟩ := by
    decide +kernel
  have free (present : Bool) :
      SetOptions.blocked ⟨.bytes [107], .bytes [118], false, false, false, some 10⟩ present =
        false := by
    cases present <;> rfl
  simp only [timedKey, ledgerRun, ledgerStep, ServerStep.effects, if_pos logs, loggedEffects, known, loggedSet,
    parsed, free, noteAll, Bool.false_eq_true, if_false, List.foldl_cons, List.foldl_nil,
    Effect.note, Effect.actionAt]
  split_ifs <;> rfl

theorem revivesNothing_timedKey : RevivesNothing emptyPrimary 0 timedKey (.afterEpoch 5000) := by
  refine @revivesNothing_of_settles emptyPrimary 0 0 timedKey (.afterEpoch 5000)
    (freshPrimary_init .noeviction) (by decide +kernel) (by decide +kernel) ?_
  intro key absent limit member
  rw [ledgerRun_timedKey] at member
  split_ifs at member with same
  swap
  · cases member
  have present : (emptyPrimary.run timedKey).store.data.get? (.bytes [107]) ≠ none := by
    decide +kernel
  exact absurd absent (same ▸ present)

/-- A counter with a lifetime that is incremented before it ends. -/
def countedKey : List (Clock × ServerStep) :=
  [(.epoch, .command true (request ["SET", "n", "5", "PX", "1000"])),
    (.afterEpoch 500, .command true (request ["INCR", "n"]))]

/-- Its log, replayed after that end, drops the counter and starts a new one. -/
theorem not_revivesNothing_countedKey :
    FreshPrimary emptyPrimary ∧ Paced 0 0 countedKey (Clock.afterEpoch 10000).time ∧
      ¬ RevivesNothing emptyPrimary 0 countedKey (.afterEpoch 10000) := by
  refine ⟨freshPrimary_init .noeviction, by decide +kernel, ?_⟩
  intro revives
  have gone := revives .noeviction (emptyPrimary.run countedKey).logFile (by decide +kernel)
    (.bytes [110]) fun entry present => by
      have expired : (emptyPrimary.run countedKey).store.data.get? (.bytes [110]) =
          some ⟨.bytes [54], some 1, 98⟩ := by
        decide +kernel
      rw [expired] at present
      obtain rfl := Option.some.inj present
      exact ⟨1, rfl, by decide +kernel⟩
  revert gone
  decide +kernel

end Restart

end MiniCache
