import MiniCache.AofTaskInvariants
import MiniCache.ServerTurns

/-!
# A rewrite of the append-only file

One rewrite among any turns of clients and tasks, which may fail or be cancelled wherever it
stands: the file at the path is the old log or the snapshot, with every record appended since.
The exception is a failure to close the old file, which nothing opens again.
-/

namespace MiniCache

/-- The records that a turn of a client appends. -/
def RewriteStep.appends : RewriteStep → List Bytes
  | .turn (.write _ commands) => commands.map encodeCommand
  | _ => []

def RewriteStep.StartsRewrite : RewriteStep → Prop
  | .turn (.rewrite _) => True
  | _ => False

/-- Closing the old file raises. -/
def RewriteStep.ClosingFails : RewriteStep → Prop
  | .turn (.swap .closeFails) => True
  | _ => False

/-- A rewrite is over, or it has a given origin in hand. -/
def Rewriting.Follows (plan : Origin) : Rewriting → Prop
  | .idle => True
  | .writing origin _ | .waiting origin => origin = plan

namespace Server

variable (clock : Clock) (server : Server) (authed : Bool)

theorem execute_appends (name : Text) (command : List Arg) :
    ∃ commands : List (List Arg),
      (server.execute clock authed name command).server.aof.map AofLog.content = server.aof.map
        fun aof => aof.content ++ commands.flatMap encodeCommand := by
  have still : server.aof.map AofLog.content =
      server.aof.map fun aof => aof.content ++ List.flatMap encodeCommand [] := by
    simp only [List.flatMap_nil, List.append_nil]
  unfold execute
  cases dispatch clock server.store command with
  | mk result store =>
      cases result with
      | error raised => exact ⟨[], still⟩
      | ok reply =>
          by_cases goes : reply.isError = false ∧ isWriteCommand name = true
          · simp only [if_pos goes]
            cases server.records clock (logs name server.store.writes store) command with
            | error raised => exact ⟨[], still⟩
            | ok records => exact ⟨_, content_append _⟩
          · simp only [if_neg goes]
            exact ⟨[], still⟩

/-- A turn of the loop leaves the log or appends records to it. -/
theorem handle_appends (command : List Bytes) :
    ∃ commands : List (List Arg),
      (server.handle clock authed command).server.aof.map AofLog.content = server.aof.map
        fun aof => aof.content ++ commands.flatMap encodeCommand := by
  rcases handle_cases clock server authed command with quiet | ⟨-, -, -, executed⟩
  · refine ⟨[], quiet.content.trans ?_⟩
    simp only [List.flatMap_nil, List.append_nil]
  · rw [executed]
    exact execute_appends clock _ authed _ _

end Server

namespace AofTasks

variable {log start : AofTasks} {plan : Origin} {appended : List Bytes}

/-- The tasks run beside the loop of a server, with its store and its log. -/
structure Hosts (log : AofTasks) (server : Server) : Prop where
  store : server.store = log.store
  content : server.aof.map AofLog.content = some log.disk.content

/-- A turn of the loop is a turn of a client. -/
theorem Hosts.handle {server : Server} (hosts : Hosts log server)
    (file : log.file = some log.disk.log) (clock : Clock) (authed : Bool)
    (command : List Bytes) :
    ∃ commands, Hosts
      (log.write (server.handle clock authed command).server.store commands)
      (server.handle clock authed command).server := by
  obtain ⟨commands, appends⟩ := Server.handle_appends clock server authed command
  refine ⟨commands, ?_⟩
  simp only [AofTasks.write, file]
  refine ⟨rfl, appends.trans ?_⟩
  rw [Disk.content_append, ← List.flatMap_def]
  have content := hosts.content
  cases aof : server.aof with
  | none =>
      rw [aof] at content
      cases content
  | some aofLog =>
      rw [aof] at content
      exact congrArg (fun before => some (before ++ _)) (Option.some.inj content)

/-- What a rewrite that started in some state owes the log, with the records appended
since. -/
structure RewriteKeeps (clock : Clock) (start : AofTasks) (appended : List Bytes)
    (log : AofTasks) : Prop where
  outcome : log.rewrites = start.rewrites ∨ log.rewrites = start.rewrites + 1
  completed : log.rewrites = start.rewrites + 1 →
    log.disk.content = rewritePayload clock start.store ++ appended.flatten
  unfinished : log.rewrites = start.rewrites →
    log.disk.content = start.disk.content ++ appended.flatten
  ended : log.rewriting = .idle → log.file = some log.disk.log ∧
    ∀ later, (log.rewrite later).rewriting =
      .writing ⟨rewritePayload later log.store, log.records.length⟩
        (.queued (rewritePayload later log.store))

/-- A thread left behind works beside the log. -/
theorem Sound.detachedWriter (sound : Sound log) (number : Nat) (progress : Progress) :
    Sound (log.detachedWriter number progress) ∧
      log.disk.Beside (log.detachedWriter number progress).disk := by
  unfold AofTasks.detachedWriter
  split
  · exact ⟨sound, .refl log.disk⟩
  · rename_i thread found
    have member := List.mem_of_getElem? found
    obtain ⟨disk, beside, later⟩ := (sound.detached thread member).step sound.disk progress
    have prepared := sound.prepared
    have alone {origin : Origin} (pending : Pending log origin) : False := by
      rw [pending.alone] at member
      cases member
    refine ⟨⟨disk, ?_, ?_, sound.covered, ?_, ?_⟩, beside⟩
    · intro other remains
      rcases List.mem_or_eq_of_mem_set remains with old | rfl
      · exact (sound.detached other old).of_beside beside
      · exact later
    · rw [beside.log]
      exact sound.file
    · rw [Disk.content, beside.log, beside.file]
      exact sound.content
    · cases state : log.rewriting with
      | idle =>
          rw [state] at prepared
          exact prepared
      | writing origin thread =>
          rw [state] at prepared
          exact (alone prepared.1).elim
      | waiting origin =>
          rw [state] at prepared
          exact (alone prepared.1).elim

theorem Sound.cancelRewrite (sound : Sound log) : Sound log.cancelRewrite := by
  have prepared := sound.prepared
  unfold AofTasks.cancelRewrite
  split
  · rename_i origin thread rewriting
    rw [rewriting] at prepared
    refine ⟨⟨sound.disk.log, nofun⟩, ?_, sound.file, sound.covered, sound.content, rfl⟩
    intro other member
    have apart : other.Apart log.disk := by
      rcases List.mem_append.mp member with old | new
      · exact sound.detached other old
      · rw [List.mem_singleton.mp new]
        exact prepared.2.1
    cases other <;> exact apart
  · exact sound

/-- How a run stands in which one rewrite started, with what it has in hand. -/
structure Course (start : AofTasks) (plan : Origin) (appended : List Bytes)
    (log : AofTasks) : Prop where
  sound : Sound log
  file : log.file = some log.disk.log
  records : log.records = start.records ++ appended
  follows : log.rewriting.Follows plan
  outcome : log.rewrites = start.rewrites ∧ log.origin = start.origin ∨
    log.rewrites = start.rewrites + 1 ∧ log.origin = plan ∧ log.rewriting = .idle

namespace Course

theorem of_alike (course : Course start plan appended log) {other : AofTasks}
    (alike : Alike log other) : Course start plan appended other where
  sound := course.sound.of_alike alike
  file := by rw [alike.file, alike.disk.log]; exact course.file
  records := alike.records.trans course.records
  follows := by rw [alike.rewriting]; exact course.follows
  outcome := by rw [alike.rewrites, alike.origin, alike.rewriting]; exact course.outcome

theorem write (course : Course start plan appended log) (store : Store)
    (commands : List (List Arg)) :
    Course start plan (appended ++ commands.map encodeCommand) (log.write store commands) := by
  have sound := course.sound.write store commands
  simp only [AofTasks.write, course.file] at sound ⊢
  refine ⟨sound, rfl, ?_, course.follows, course.outcome⟩
  rw [← List.append_assoc, ← course.records]

/-- A rewrite gives up with the file of the log open. -/
theorem fail (course : Course start plan appended log) {other : AofTasks} (sound : Sound other)
    (file : other.file = some other.disk.log) (records : other.records = log.records)
    (origin : other.origin = log.origin) (rewrites : other.rewrites = log.rewrites)
    (idle : other.rewriting = .idle) : Course start plan appended other := by
  refine ⟨sound, file, records.trans course.records, by rw [idle]; trivial, ?_⟩
  rw [rewrites, origin, idle]
  exact course.outcome.imp_right fun done => ⟨done.1, done.2.1, rfl⟩

theorem failRewrite (course : Course start plan appended log) :
    Course start plan appended log.failRewrite :=
  course.fail (course.sound.failRewrite course.sound.disk (.refl log.disk) course.sound.file)
    course.file rfl rfl rfl rfl

theorem writer (course : Course start plan appended log) (progress : Progress) :
    Course start plan appended (log.writer progress) := by
  have sound := course.sound.writer progress
  have prepared := course.sound.prepared
  have follows := course.follows
  have outcome := course.outcome
  unfold AofTasks.writer at sound ⊢
  split at sound
  · rename_i origin thread rewriting
    rw [rewriting] at prepared follows outcome
    have beside := (prepared.2.1.step course.sound.disk progress).2.1
    refine ⟨sound, course.file.trans (congrArg some beside.log.symm), course.records, follows,
      outcome.imp_right fun done => nomatch done.2.2⟩
  · exact course

theorem resumeRewrite (course : Course start plan appended log) :
    Course start plan appended log.resumeRewrite := by
  have sound := course.sound.resumeRewrite
  have follows := course.follows
  have outcome := course.outcome
  unfold AofTasks.resumeRewrite at sound ⊢
  split at sound
  · rename_i origin rewriting
    rw [rewriting] at follows outcome
    exact ⟨sound, course.file, course.records, follows,
      outcome.imp_right fun done => nomatch done.2.2⟩
  · exact course.failRewrite
  · exact course

theorem cancelSwap (course : Course start plan appended log) :
    Course start plan appended log.cancelSwap := by
  unfold AofTasks.cancelSwap
  split
  · exact course.failRewrite
  · exact course

/-- The swap succeeds, or it fails with the file of the log open, when the old file can be
closed. -/
theorem swap (course : Course start plan appended log) {outcome : SwapOutcome}
    (closes : outcome ≠ .closeFails) : Course start plan appended (log.swap outcome) := by
  have sound := course.sound.swap outcome
  unfold AofTasks.swap at sound ⊢
  split at sound
  · rename_i origin rewriting
    have follows := course.follows
    have before := course.outcome
    rw [rewriting] at follows before
    obtain ⟨rewrites, -⟩ := before.resolve_right fun done => nomatch done.2.2
    have opened : log.disk.openAppend.2.log = log.disk.log :=
      course.sound.disk.openAppend.2.1.log
    split_ifs at sound ⊢
    · cases outcome with
      | openFails => exact course.fail sound course.file rfl rfl rfl rfl
      | writeFails count =>
          exact course.fail sound (course.file.trans (congrArg some opened.symm)) rfl rfl rfl rfl
      | fsyncFails =>
          exact course.fail sound (course.file.trans (congrArg some opened.symm)) rfl rfl rfl rfl
      | closeFails => exact absurd rfl closes
      | replaceFails => exact course.fail sound rfl rfl rfl rfl rfl
      | replaced =>
          exact ⟨sound, rfl, course.records, trivial, Or.inr ⟨congrArg (· + 1) rewrites, follows, rfl⟩⟩
    · exact course
  · exact course

theorem cancelRewrite (course : Course start plan appended log) :
    Course start plan appended log.cancelRewrite := by
  have sound := course.sound.cancelRewrite
  unfold AofTasks.cancelRewrite at sound ⊢
  split at sound
  · exact course.fail sound course.file rfl rfl rfl rfl
  · exact course

theorem detachedWriter (course : Course start plan appended log) (number : Nat)
    (progress : Progress) : Course start plan appended (log.detachedWriter number progress) := by
  obtain ⟨sound, beside⟩ := course.sound.detachedWriter number progress
  cases found : log.detached[number]? with
  | none => simpa only [AofTasks.detachedWriter, found] using course
  | some thread =>
      simp only [AofTasks.detachedWriter, found] at sound beside ⊢
      exact ⟨sound, course.file.trans (congrArg some beside.log.symm), course.records,
        course.follows, course.outcome⟩

/-- No turn strays from the course, when no other rewrite starts and the old file can be
closed. -/
theorem step (course : Course start plan appended log) {step : RewriteStep}
    (single : ¬ step.StartsRewrite) (closes : ¬ step.ClosingFails) :
    Course start plan (appended ++ step.appends) (log.rewriteStep step) := by
  have quiet {other : AofTasks} (course : Course start plan appended other) :
      Course start plan (appended ++ []) other := by
    rwa [List.append_nil]
  cases step with
  | cancelRewrite => exact quiet course.cancelRewrite
  | detached number progress => exact quiet (course.detachedWriter number progress)
  | turn step =>
      have task (atLock : step.AtLock) : Course start plan (appended ++ []) (log.step step) :=
        quiet (course.of_alike (alike_of_task log atLock))
      cases step with
      | write store commands => exact course.write store commands
      | rewrite clock => exact (single trivial).elim
      | writer progress => exact quiet (course.writer progress)
      | resumeRewrite => exact quiet course.resumeRewrite
      | swap outcome =>
          refine quiet (course.swap ?_)
          rintro rfl
          exact closes trivial
      | cancelSwap => exact quiet course.cancelSwap
      | commit | syncAsync | acquire | fsyncStarts | fsyncEnds | resume | cancel =>
          exact task trivial

theorem run (course : Course start plan appended log) {steps : List RewriteStep}
    (single : ∀ step ∈ steps, ¬ step.StartsRewrite) (closes : ∀ step ∈ steps, ¬ step.ClosingFails) :
    Course start plan (appended ++ steps.flatMap RewriteStep.appends)
      (log.runRewrite steps) := by
  induction steps generalizing log appended with
  | nil =>
      rw [List.flatMap_nil, List.append_nil]
      exact course
  | cons step steps ih =>
      rw [List.forall_mem_cons] at single closes
      rw [List.flatMap_cons, ← List.append_assoc]
      exact ih (course.step single.1 closes.1) single.2 closes.2

/-- What the course comes to at each of its points. -/
theorem keeps {clock : Clock} (course : Course start plan appended log)
    (planned : plan = ⟨rewritePayload clock start.store, start.records.length⟩)
    (begins : Sound start) : RewriteKeeps clock start appended log := by
  have content := course.sound.content
  rw [course.records] at content
  refine ⟨course.outcome.imp And.left And.left, fun done => ?_, fun same => ?_, fun idle => ?_⟩
  · obtain ⟨same, -⟩ | ⟨-, origin, -⟩ := course.outcome
    · omega
    · rw [content, origin, planned, List.drop_left]
  · obtain ⟨-, origin⟩ | ⟨done, -⟩ := course.outcome
    · rw [content, origin, List.drop_append_of_le_length begins.covered, List.flatten_append,
        ← List.append_assoc, ← begins.content]
    · omega
  · have buffer := course.sound.prepared
    rw [idle] at buffer
    refine ⟨course.file, fun later => ?_⟩
    simp only [AofTasks.rewrite, show log.rewriteBuffer = none from buffer, Option.isSome_none,
      Bool.false_eq_true, if_false]

end Course

/-- Between rewrites: nothing runs, and no thread was left behind. -/
structure Ready (log : AofTasks) : Prop where
  sound : Sound log
  file : log.file = some log.disk.log
  idle : log.rewriting = .idle
  alone : log.detached = []

namespace Ready

theorem init (fsync : FsyncPolicy) (store : Store) (content : Bytes) (tmp : Option Bytes) :
    Ready (init fsync store content tmp) :=
  ⟨sound_init fsync store content tmp, rfl, rfl, rfl⟩

theorem step (ready : Ready log) {step : RewriteStep} (single : ¬ step.StartsRewrite) :
    Ready (log.rewriteStep step) := by
  obtain ⟨sound, file, idle, alone⟩ := ready
  cases step with
  | cancelRewrite =>
      simpa only [rewriteStep, AofTasks.cancelRewrite, idle] using ⟨sound, file, idle, alone⟩
  | detached number progress =>
      simpa only [rewriteStep, AofTasks.detachedWriter, alone, List.getElem?_nil] using
        ⟨sound, file, idle, alone⟩
  | turn step =>
      have still (same : log.step step = log) : Ready (log.step step) := by
        rw [same]
        exact ⟨sound, file, idle, alone⟩
      have task (atLock : step.AtLock) : Ready (log.step step) := by
        have alike := alike_of_task log atLock
        exact ⟨sound.of_alike alike, by rw [alike.file, alike.disk.log, file],
          alike.rewriting.trans idle, alike.detached.trans alone⟩
      cases step with
      | write store commands =>
          have written := sound.write store commands
          simp only [AofTasks.write, file] at written
          simp only [rewriteStep, AofTasks.step, AofTasks.write, file]
          exact ⟨written, rfl, idle, alone⟩
      | rewrite clock => exact (single trivial).elim
      | writer | resumeRewrite | swap | cancelSwap =>
          refine still ?_
          simp only [AofTasks.step, AofTasks.writer, AofTasks.resumeRewrite, AofTasks.swap,
            AofTasks.cancelSwap, idle]
      | commit | syncAsync | acquire | fsyncStarts | fsyncEnds | resume | cancel =>
          exact task trivial

theorem run (ready : Ready log) {steps : List RewriteStep}
    (single : ∀ step ∈ steps, ¬ step.StartsRewrite) : Ready (log.runRewrite steps) := by
  induction steps generalizing log with
  | nil => exact ready
  | cons step steps ih =>
      rw [List.forall_mem_cons] at single
      exact ih (ready.step single.1) single.2

/-- A rewrite that starts has its snapshot in hand. -/
theorem rewrite (ready : Ready log) (clock : Clock) :
    Course log ⟨rewritePayload clock log.store, log.records.length⟩ [] (log.rewrite clock) := by
  have sound := ready.sound.rewrite ready.alone clock
  have buffer := ready.sound.prepared
  rw [ready.idle] at buffer
  simp only [AofTasks.rewrite, show log.rewriteBuffer = none from buffer, Option.isSome_none,
    Bool.false_eq_true, if_false] at sound ⊢
  exact ⟨sound, ready.file, (List.append_nil _).symm, rfl, Or.inl ⟨rfl, rfl⟩⟩

end Ready

/-- Wherever a rewrite stands, the file at the path is the snapshot of the store at its start
or the old log, with every record appended since, and when it is over the log goes on at
that path; so long as the old file can be closed. -/
theorem rewrite_keeps_records (fsync : FsyncPolicy) (store : Store) (content : Bytes)
    (tmp : Option Bytes) (before after : List RewriteStep) (clock : Clock)
    (first : ∀ step ∈ before, ¬ step.StartsRewrite)
    (single : ∀ step ∈ after, ¬ step.StartsRewrite)
    (closes : ∀ step ∈ after, ¬ step.ClosingFails) :
    let start := (init fsync store content tmp).runRewrite before
    RewriteKeeps clock start (after.flatMap RewriteStep.appends)
      ((start.rewrite clock).runRewrite after) := by
  intro start
  have ready : Ready start := (Ready.init fsync store content tmp).run first
  exact ((ready.rewrite clock).run single closes).keeps rfl ready.sound

/-- `SET key 1`. -/
def setOne (key : UInt8) : List Arg := [.ofString "SET", .bytes [key], .bytes [49]]

/-- The turn of a client that sets a key to 1. -/
def setTurn (store : Store) (key : UInt8) : RewriteStep :=
  .turn (.write (store.call 0 (.set (.bytes [key]) (.bytes [49]) none)).2 [setOne key])

/-- A rewrite up to the swap. -/
def upToSwap : List RewriteStep :=
  [.turn (.writer .done), .turn (.writer .done), .turn (.writer .done), .turn .resumeRewrite]

theorem rewrite_keeps_records_done :
    let start := (init .everysec (.init 0 .noeviction) [] none).runRewrite
      [setTurn (.init 0 .noeviction) 97]
    let after := upToSwap ++ [setTurn start.store 98, .turn (.swap .replaced)]
    let log := (start.rewrite .epoch).runRewrite after
    log.rewrites = 1 ∧ RewriteKeeps .epoch start (after.flatMap RewriteStep.appends) log := by
  intro start after log
  refine ⟨by decide +kernel, rewrite_keeps_records .everysec (.init 0 .noeviction) [] none
    [setTurn (.init 0 .noeviction) 97] after .epoch ?_ ?_ ?_⟩ <;>
  simp [after, upToSwap, setTurn, RewriteStep.StartsRewrite, RewriteStep.ClosingFails]

/-- The old file is closed with an error, and what a client then sets is not in the log. -/
theorem rewrite_loses_record :
    let start := init .everysec (.init 0 .noeviction) [] none
    let after := upToSwap ++ [.turn (.swap .closeFails), setTurn start.store 97]
    let log := (start.rewrite .epoch).runRewrite after
    log.rewrites = start.rewrites ∧ log.rewriteBuffer = none ∧ log.file = none ∧
      log.disk.content = [] ∧ after.flatMap RewriteStep.appends = [encodeCommand (setOne 97)] ∧
      ¬ RewriteKeeps .epoch start (after.flatMap RewriteStep.appends) log := by
  intro start after log
  have same : log.rewrites = start.rewrites := by decide +kernel
  have content : log.disk.content = [] := by decide +kernel
  refine ⟨same, by decide +kernel, by decide +kernel, content, by decide +kernel, ?_⟩
  intro keeps
  have lost := keeps.unfinished same
  rw [content] at lost
  exact absurd lost (by decide +kernel)

end AofTasks

end MiniCache
