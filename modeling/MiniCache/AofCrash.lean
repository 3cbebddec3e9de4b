import MiniCache.AofDurability

/-!
# Crashes

A crash cuts the log at any byte.  The replay of what is left has the contents that
the store had after the steps whose records are whole, unless the cut goes between
the two records of one `SET`: the first of them alone leaves a key without its
deadline.
-/

namespace MiniCache

open ExpiringMap (Effect Tracks applyAll)

section Cuts

/-- The steps whose records lie wholly within the first bytes of the log. -/
def survivingSteps (length : Nat) :
    Server → List (Clock × ServerStep) → List (Clock × ServerStep)
  | _, [] => []
  | server, (clock, step) :: rest =>
      let after := server.step clock step
      if after.logFile.content.length ≤ length then
        (clock, step) :: survivingSteps length after rest
      else []

/-- The first step whose records the cut goes through loses them all. -/
def Unsplit (length : Nat) : Server → List (Clock × ServerStep) → Prop
  | _, [] => True
  | server, (clock, step) :: rest =>
      let after := server.step clock step
      if after.logFile.content.length ≤ length then Unsplit length after rest
      else
        ∀ record ∈ (step.records clock server).head?,
          length < server.logFile.content.length + (encodeCommand record).length

instance (length : Nat) (server : Server) (steps : List (Clock × ServerStep)) :
    Decidable (Unsplit length server steps) := by
  induction steps generalizing server with
  | nil => unfold Unsplit; infer_instance
  | cons entry rest ih => unfold Unsplit; infer_instance

/-- The deadlines that the records of a run hold. -/
def loggedDeadlines (server : Server) (steps : List (Clock × ServerStep)) : List Time :=
  (runEffects server steps).filterMap Effect.limit

variable {offset moment since : Time} {server : Server} {steps rest : List (Clock × ServerStep)}

theorem Paced.le (paced : Paced offset since steps moment) : since ≤ moment := by
  induction steps generalizing since with
  | nil => exact paced
  | cons entry rest ih => exact le_trans paced.2.1 (ih paced.2.2.2)

/-- A run is paced when its two parts are. -/
theorem paced_append :
    Paced offset since (steps ++ rest) moment ↔
      ∃ middle, Paced offset since steps middle ∧ Paced offset middle rest moment ∧
        middle ≤ moment := by
  induction steps generalizing since with
  | nil =>
      constructor
      · intro paced
        exact ⟨since, le_refl since, paced, paced.le⟩
      · rintro ⟨middle, inOrder, paced, -⟩
        cases rest with
        | nil => exact le_trans inOrder paced
        | cons entry rest =>
            exact ⟨paced.1, le_trans inOrder paced.2.1, paced.2.2.1, paced.2.2.2⟩
  | cons entry more ih =>
      simp only [List.cons_append, Paced, ih]
      constructor
      · rintro ⟨same, inOrder, client, middle, first, second, before⟩
        exact ⟨middle, ⟨same, inOrder, client, first⟩, second, before⟩
      · rintro ⟨middle, ⟨same, inOrder, client, first⟩, second, before⟩
        exact ⟨same, inOrder, client, middle, first, second, before⟩

theorem Paced.mono {later : Time} (paced : Paced offset since steps moment)
    (inOrder : moment ≤ later) : Paced offset since steps later := by
  induction steps generalizing since with
  | nil => exact le_trans paced inOrder
  | cons entry rest ih =>
      exact ⟨paced.1, paced.2.1, paced.2.2.1, ih paced.2.2.2⟩

theorem run_append (server : Server) (steps rest : List (Clock × ServerStep)) :
    server.run (steps ++ rest) = (server.run steps).run rest := by
  induction steps generalizing server with
  | nil => rfl
  | cons entry more ih => exact ih _

/-- The first step after the surviving ones, with what the cut leaves of it. -/
theorem survivingSteps_split {length : Nat} (unsplit : Unsplit length server steps)
    (inside : server.logFile.content.length ≤ length) :
    ∃ rest, steps = survivingSteps length server steps ++ rest ∧
      (server.run (survivingSteps length server steps)).logFile.content.length ≤ length ∧
      ∀ clock step more, rest = (clock, step) :: more →
        let left := server.run (survivingSteps length server steps)
        length < (left.step clock step).logFile.content.length ∧
          ∀ record ∈ (step.records clock left).head?,
            length < left.logFile.content.length + (encodeCommand record).length := by
  induction steps generalizing server with
  | nil => exact ⟨[], rfl, inside, fun _ _ _ impossible => by cases impossible⟩
  | cons entry rest ih =>
      obtain ⟨clock, step⟩ := entry
      simp only [survivingSteps, Unsplit] at unsplit ⊢
      split_ifs at unsplit ⊢ with whole
      · obtain ⟨others, split, within, next⟩ := ih unsplit whole
        exact ⟨others, congrArg (List.cons (clock, step)) split, within, next⟩
      · refine ⟨(clock, step) :: rest, rfl, inside, ?_⟩
        intro _ _ _ same
        cases same
        exact ⟨Nat.lt_of_not_le whole, unsplit⟩

/-- The deadlines that the log has are among those that were logged. -/
theorem mem_loggedDeadlines {ledger : Ledger} {key : Arg} {limit : Time}
    (told : limit ∈ ledgerRun server ledger steps key) :
    limit ∈ ledger key ∨ limit ∈ loggedDeadlines server steps := by
  induction steps generalizing server ledger with
  | nil => exact Or.inl told
  | cons entry rest ih =>
      obtain ⟨clock, step⟩ := entry
      rw [loggedDeadlines, runEffects, List.filterMap_append, List.mem_append]
      rcases ih told with now | later
      · rcases ExpiringMap.noteAll_or now with before | ⟨effect, member, given⟩
        · exact Or.inl before
        · exact Or.inr (Or.inl (List.mem_filterMap.mpr ⟨effect, member, given⟩))
      · exact Or.inr (Or.inr later)

end Cuts

section Crash

/-- A replay of the first bytes of the log has the contents, with deadlines near the
same, that the store had after some first steps of the run. -/
def RecoversPrefix (server : Server) (offset : Time) (steps : List (Clock × ServerStep))
    (length : Nat) (restart : Clock) : Prop :=
  ∀ policy,
    let outcome := replay restart (Store.init 0 policy)
      ⟨(server.run steps).logFile.content.take length, none⟩
    (∃ count, outcome.1 = .ok count) ∧
      ∃ kept, kept <+: steps ∧ ∀ key,
        Tracks (fun limit keptLimit => Near (limit - offset) (keptLimit - restart.offset))
          ((server.run kept).store.plain key) (outcome.2.1.plain key)

variable {offset moment since start : Time} {server : Server}
  {steps : List (Clock × ServerStep)} {plain : PlainMap} {log : List (List Bytes)}
  {effects : List (Effect Arg Arg Time)}

theorem Recording.logFile_content (recording : Recording offset since server plain log effects) :
    server.logFile.content = logOf log := by
  rw [Server.logFile, recording.content]
  rfl

/-- What survives a cut that leaves nothing of the next step. -/
theorem survivors_of_unsplit {length : Nat} {rest : List (Clock × ServerStep)}
    (recording : Recording offset since server plain log effects)
    (paced : Paced offset since rest moment)
    (inside : server.logFile.content.length ≤ length)
    (unsplit : ∀ clock step more, rest = (clock, step) :: more →
      length < (server.step clock step).logFile.content.length ∧
        ∀ record ∈ (step.records clock server).head?,
          length < server.logFile.content.length + (encodeCommand record).length) :
    survivors length (log ++ runRecords server rest) = log := by
  rw [recording.logFile_content] at inside unsplit
  rw [survivors, RecordLog.wholeRecords_append _ inside]
  cases rest with
  | nil => exact List.append_nil log
  | cons entry more =>
      obtain ⟨clock, step⟩ := entry
      obtain ⟨beyond, first⟩ := unsplit clock step more rfl
      obtain ⟨done, -, next⟩ := recording.step paced.1 paced.2.1 paced.2.2.1
      rw [next.logFile_content] at beyond
      rw [runRecords]
      cases recordsEq : step.records clock server with
      | nil =>
          rw [recordsEq, List.map_nil, List.append_nil] at beyond
          exact absurd inside (Nat.not_le_of_gt beyond)
      | cons record others =>
          have cut := first record (by rw [recordsEq]; rfl)
          rw [← encodeCommand_sent] at cut
          rw [List.map_cons, List.cons_append, RecordLog.wholeRecords_cons_of_lt,
            List.append_nil]
          rw [logOf] at cut inside
          omega

theorem alive_of_ahead {limits : List (Effect Arg Arg Time)}
    (ahead : ∀ limit ∈ limits.filterMap Effect.limit, moment < limit) :
    ∀ effect ∈ limits, ExpiringMap.Alive moment effect.limit :=
  fun _ member _ given => ahead _ (List.mem_filterMap.mpr ⟨_, member, given⟩)

/-- A copy that follows a cell and is not over has the content of the cell. -/
theorem tracks_of_follows {cell copy : ExpiringMap.Cell Arg Time} {noted : Option Time}
    (follows : ExpiringMap.Follows Near moment cell noted copy)
    (ahead : ∀ limit ∈ noted, moment < limit) (lasting : ExpiringMap.Lasting moment copy) :
    Tracks Near cell copy := by
  have same := lasting.live_eq
  rcases follows.elim with ⟨rfl, dead⟩ | ⟨value, rfl, rfl, kept⟩ |
    ⟨value, deadline, limit, rfl, rfl, close, kept⟩
  · rw [← same, dead]
    exact ExpiringMap.tracks_none
  · rw [← same, kept]
    exact Option.Rel.some ⟨rfl, Option.Rel.none⟩
  · rw [← same, kept, if_pos (ahead limit rfl)]
    exact Option.Rel.some ⟨rfl, Option.Rel.some close⟩

/-- A crash leaves the contents of some moment of the run, unless it splits a `SET`
or a key ran out within the millisecond in which the log still has it. -/
theorem recoversPrefix_of_unsplit {length : Nat} {restart : Clock} (fresh : FreshPrimary server)
    (paced : Paced offset start steps restart.time)
    (ahead : ∀ limit ∈ loggedDeadlines server (survivingSteps length server steps),
      restart.time < limit)
    (unsplit : Unsplit length server steps)
    (settles : Settles restart.time server (fun _ => none) (survivingSteps length server steps))
    (removed : ∀ key,
      (server.run (survivingSteps length server steps)).store.data.get? key = none →
      ledgerRun server (fun _ => none) (survivingSteps length server steps) key = none) :
    RecoversPrefix server offset steps length restart := by
  intro policy outcome
  have first := fresh.recording offset start
  obtain ⟨rest, split, inside, next⟩ := survivingSteps_split unsplit
    (by rw [first.logFile_content]; exact Nat.zero_le length)
  generalize survivingSteps length server steps = kept at *
  subst split
  obtain ⟨middle, pacedKept, pacedRest, before⟩ := paced_append.mp paced
  -- The whole log, and what the cut leaves of it.
  obtain ⟨_, keptRecording⟩ := first.run pacedKept
  obtain ⟨_, wholeRecording⟩ := keptRecording.run pacedRest
  have survive := survivors_of_unsplit keptRecording pacedRest inside next
  rw [← run_append] at wholeRecording
  -- Its replay follows the plain map of the surviving steps.
  obtain ⟨plain, recorded⟩ :=
    (fresh.recorded offset restart.time start).run (pacedKept.mono before) settles
  obtain ⟨count, replayed, -⟩ := @replay_cut restart (Store.init 0 policy) _
    wholeRecording.tells.sendable rfl length (by rw [survive]; exact recorded.tells.fine)
    ⟨(server.run (kept ++ rest)).logFile.content.take length, none⟩
    (by rw [wholeRecording.logFile_content])
  rw [survive] at replayed count
  have represents : Represents restart _
      (applyAll restart.time (runEffects server kept) (fun _ => none)) :=
    recorded.tells.acts (represents_init restart policy)
  rw [drain_of_nil represents.drained] at replayed
  refine ⟨⟨_, count⟩, kept, List.prefix_append kept rest, fun key => ?_⟩
  rw [show outcome.2.1 = _ from replayed]
  have told : ∀ limit ∈ ledgerRun server (fun _ => none) kept key, restart.time < limit := by
    intro limit member
    rcases mem_loggedDeadlines member with impossible | logged
    · cases impossible
    · exact ahead limit logged
  have lasting : ExpiringMap.Lasting restart.time
      (applyAll restart.time (runEffects server kept) (fun _ => none) key) :=
    ExpiringMap.lasting_applyAll (fun _ _ impossible => by cases impossible)
      (alive_of_ahead ahead) key
  have tracks : Tracks Near (plain key)
      (applyAll restart.time (runEffects server kept) (fun _ => none) key) :=
    tracks_of_follows (recorded.follows key) told lasting
  have whole := (represents.holds key).eq_of_live (by
    rw [← restart.toMonotonic_time,
      ExpiringMap.live_mapDeadline restart.toMonotonic_strictMono, lasting.live_eq])
  have original := (recorded.represents (restart.withOffset offset)
    (offset_withOffset restart offset) (le_refl _)).holds key
  rw [whole]
  rcases original with same | ⟨purged, dead⟩
  · rw [same]
    exact tracks.mapDeadline (near_toMonotonic restart offset)
  · -- A cell that was purged had no logged deadline, so that it was empty.
    have absent : ledgerRun server (fun _ => none) kept key = none := by
      refine removed key ?_
      rw [Store.plain_eq] at purged
      exact Option.map_eq_none_iff.mp purged
    rcases (recorded.follows key).elim with ⟨empty, -⟩ | ⟨value, cell, -⟩ |
      ⟨_, _, _, -, noted, -⟩
    · rw [purged]
      rw [empty] at tracks
      generalize applyAll restart.time (runEffects server kept) (fun _ => none) key = copy at tracks
      cases tracks
      exact ExpiringMap.tracks_none
    · rw [cell] at dead
      cases dead
    · rw [absent] at noted
      cases noted

/-- A key with a lifetime, and its deletion. -/
def deletedKey : List (Clock × ServerStep) :=
  timedKey ++ [(.afterEpoch 1000, .command true (request ["DEL", "k"]))]

theorem survivingSteps_deletedKey : survivingSteps 75 emptyPrimary deletedKey = timedKey := by
  let timed := emptyPrimary.step .epoch (.command true (request ["SET", "k", "v", "EX", "10"]))
  have first : timed.logFile.content.length ≤ 75 := by decide +kernel
  have second : ¬ (timed.step (.afterEpoch 1000)
      (.command true (request ["DEL", "k"]))).logFile.content.length ≤ 75 := by
    decide +kernel
  simp only [deletedKey, timedKey, List.cons_append, List.nil_append, survivingSteps]
  rw [if_pos first, if_neg second]

/-- A cut in the record of the deletion leaves the key. -/
theorem recoversPrefix_deletedKey :
    RecoversPrefix emptyPrimary 0 deletedKey 75 (.afterEpoch 2000) := by
  refine @recoversPrefix_of_unsplit 0 0 emptyPrimary deletedKey 75 (.afterEpoch 2000)
    (freshPrimary_init .noeviction) (by decide +kernel) ?_ (by decide +kernel) ?_ ?_
  · rw [survivingSteps_deletedKey]
    decide +kernel
  · rw [survivingSteps_deletedKey]
    decide +kernel
  · rw [survivingSteps_deletedKey]
    intro key absent
    rw [ledgerRun_timedKey]
    split_ifs with same
    · have present : (emptyPrimary.run timedKey).store.data.get? (.bytes [107]) ≠ none := by
        decide +kernel
      exact absurd absent (same ▸ present)
    · rfl

/-- A cut between the two records of a `SET` leaves a key without its deadline. -/
theorem not_recoversPrefix_timedKey :
    FreshPrimary emptyPrimary ∧ Paced 0 0 timedKey (Clock.afterEpoch 1000).time ∧
      (∀ limit ∈ loggedDeadlines emptyPrimary timedKey, (Clock.afterEpoch 1000).time < limit) ∧
      ¬ RecoversPrefix emptyPrimary 0 timedKey 27 (.afterEpoch 1000) := by
  refine ⟨freshPrimary_init .noeviction, by decide +kernel, by decide +kernel, ?_⟩
  intro recovers
  obtain ⟨-, kept, first, tracks⟩ := recovers .noeviction
  have tracksKey := tracks (.bytes [107])
  have recovered : (replay (.afterEpoch 1000) (Store.init 0 .noeviction)
      ⟨(emptyPrimary.run timedKey).logFile.content.take 27, none⟩).2.1.plain (.bytes [107]) =
        some (.bytes [118], none) := by
    decide +kernel
  rw [recovered] at tracksKey
  have never : ∀ steps ∈ timedKey.inits,
      (emptyPrimary.run steps).store.plain (.bytes [107]) = none ∨
        (emptyPrimary.run steps).store.plain (.bytes [107]) = some (.bytes [118], some 10) := by
    intro steps member
    simp only [timedKey, List.inits, List.map_cons, List.map_nil, List.mem_cons, List.not_mem_nil,
      or_false] at member
    rcases member with rfl | rfl
    · exact Or.inl (by decide +kernel)
    · exact Or.inr (by decide +kernel)
  rcases never kept ((List.mem_inits kept timedKey).mpr first) with absent | timed
  · rw [absent] at tracksKey
    cases tracksKey
  · rw [timed] at tracksKey
    cases tracksKey with
    | some related => cases related.2

end Crash

end MiniCache
