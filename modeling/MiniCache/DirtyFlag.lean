import MiniCache.GroupCommit

/-!
# The dirty flag

`AOFLog.sync` clears the flag before its `fsync`, in a worker thread beside the appends of the
loop or on the loop when the log is closed, and nothing sets the flag again when the `fsync`
raises.  So the flag may say that all is durable when it is not.  It does not when every
failure is excused: an append has set the flag again by then, or the bytes are durable.

The invariant says what answers for the bytes while threads are about: the flag, the durable
part of the file, or a thread whose `fsync` began when the file was as long as it is now.
-/

namespace MiniCache

/-- The worker thread of a task. -/
def TaskState.thread : TaskState → Option FsyncThread
  | .running _ thread => some thread
  | .cancelled thread => thread
  | .waiting | .returned | .raised => none

/-- The task is in `sync_async`, and its thread has cleared the flag and runs `os.fsync`. -/
def AofTask.Syncs (task : AofTask) (inode : Inode) (length : Nat) : Prop :=
  task.commit = none ∧ task.state.thread = some (.running inode length)

/-- A turn of a task, or `AOFLog.close`, whose `os.fsync` succeeds or raises. -/
inductive SyncStep
  | turn (step : AofStep)
  | close (done : Bool)

namespace AofTasks

/-- `AOFLog.sync` on the loop, and whether it returns.  No append comes between, and what the
threads do in the meantime they could do before or after. -/
def sync (log : AofTasks) (done : Bool) : Bool × AofTasks :=
  match log.file with
  | some inode =>
      if log.dirty then
        let cleared := { log with dirty := false }
        if done then (true, { cleared with disk := log.disk.fsync inode }) else (false, cleared)
      else (true, log)
  | none => (true, log)

/-- `AOFLog.close`. -/
def close (log : AofTasks) (done : Bool) : AofTasks :=
  match log.file with
  | none => log
  | some _ =>
      let synced := log.sync done
      if synced.1 then { synced.2 with file := none } else synced.2

def syncStep (log : AofTasks) : SyncStep → AofTasks
  | .turn step => log.step step
  | .close done => log.close done

def runSync (log : AofTasks) (steps : List SyncStep) : AofTasks := steps.foldl syncStep log

/-- Nothing was appended, or all of the log is durable. -/
def AppendsDurable (log : AofTasks) : Prop :=
  log.records = [] ∨ log.disk.durableContent = log.disk.content

/-- No `sync` runs. -/
def NoSync (log : AofTasks) : Prop :=
  ∀ task ∈ log.tasks, ∀ inode length, ¬ task.Syncs inode length

/-- The flag tells when no sync runs: if it is clear, all is durable, and otherwise the next
sync, and closing the log, call `os.fsync` on the whole file. -/
structure Honest (log : AofTasks) : Prop where
  flag : log.NoSync → log.dirty = false → log.AppendsDurable
  sync : log.NoSync → ¬ log.AppendsDurable → ∀ inode ∈ log.file,
    (log.startThread none).1 = .running inode (log.disk.files inode).content.length
  close : log.NoSync → log.file ≠ none → (log.close true).AppendsDurable

end AofTasks

/-- When `os.fsync` raises in `sync`, an append has set the flag again, or all is durable.  On
the loop no append comes between. -/
def SyncStep.Excused (log : AofTasks) : SyncStep → Prop
  | .turn (.fsyncEnds number false) =>
      ∀ task ∈ log.tasks[number]?, ∀ inode length, task.Syncs inode length →
        log.dirty = true ∨ log.AppendsDurable
  | .close false => log.file ≠ none → log.dirty = true → log.AppendsDurable
  | _ => True

namespace AofTasks

variable {log other : AofTasks} {number : Nat} {task : AofTask} {state : TaskState}

/-- Every failure in a run is excused. -/
def Excused : AofTasks → List SyncStep → Prop
  | _, [] => True
  | log, step :: steps => step.Excused log ∧ Excused (log.syncStep step) steps

theorem appendsDurable_iff :
    log.AppendsDurable ↔ log.records = [] ∨ log.disk.content.length ≤ log.durable := by
  rw [AppendsDurable, Disk.durableContent, List.take_eq_self_iff, durable]

theorem AppendsDurable.mono (appends : log.AppendsDurable) (records : other.records = log.records)
    (content : other.disk.content = log.disk.content) (durable : log.durable ≤ other.durable) :
    other.AppendsDurable := by
  rw [appendsDurable_iff] at appends ⊢
  rw [records, content]
  exact appends.imp_right fun covers => covers.trans durable

/-- A task with some number runs a sync that covers the file of the log as it is. -/
def Covered (log : AofTasks) : Prop :=
  ∃ (number : Nat) (task : AofTask) (length : Nat), log.tasks[number]? = some task ∧
    task.Syncs log.disk.log length ∧ log.disk.content.length ≤ length

/-- Something answers for what was appended. -/
def Told (log : AofTasks) : Prop := log.dirty = true ∨ log.AppendsDurable ∨ log.Covered

/-- The log with its flag, where only tasks in `sync_async` have a thread that clears it. -/
structure Flagged (log : AofTasks) : Prop where
  sound : Sound log
  alone : log.detached = []
  clears : ∀ task ∈ log.tasks, task.state.thread = some (.queued none) → task.commit = none
  told : log.Told

/-- The file that is open is the file at the path. -/
theorem Flagged.file (flagged : Flagged log) {inode : Inode} (opened : log.file = some inode) :
    inode = log.disk.log := by
  rcases flagged.sound.file with closed | here
  · rw [closed] at opened
    cases opened
  · exact Option.some.inj (opened.symm.trans here)

/-- With the flag clear and no sync about, the bytes answer for themselves. -/
theorem Flagged.honest (flagged : Flagged log) : Honest log := by
  have flag (quiet : log.NoSync) (clear : log.dirty = false) : log.AppendsDurable := by
    rcases flagged.told with dirty | durable | ⟨number, task, length, here, syncs, -⟩
    · rw [clear] at dirty
      cases dirty
    · exact durable
    · exact (quiet task (List.mem_of_getElem? here) _ length syncs).elim
  refine ⟨flag, fun quiet lost inode opened => ?_, fun quiet opened => ?_⟩
  · have dirty : log.dirty = true := by
      by_contra clear
      exact lost (flag quiet (Bool.eq_false_iff.mpr clear))
    simp only [startThread, show log.file = some inode from opened, if_pos dirty]
  · obtain ⟨inode, here⟩ := Option.ne_none_iff_exists'.mp opened
    obtain rfl := flagged.file here
    cases dirty : log.dirty with
    | false =>
        have same : log.close true = { log with file := none } := by
          simp only [close, sync, here, dirty, Bool.false_eq_true, if_false, if_true]
        rw [same]
        exact flag quiet dirty
    | true =>
        have same : log.close true = { log with
            dirty := false
            disk := log.disk.fsync log.disk.log
            file := none } := by
          simp only [close, sync, here, dirty, if_true]
        rw [same, appendsDurable_iff]
        refine Or.inr ?_
        exact log.disk.length_le_durable_fsync log.disk.log

section Turns

theorem TaskTurn.content (turn : TaskTurn log other number task state) :
    other.disk.content = log.disk.content := by
  rw [Disk.content, turn.alike.disk.log, turn.alike.disk.content, Disk.content]

/-- A turn of one task keeps the others, and the task keeps the thread of a sync. -/
theorem Covered.turn (covered : log.Covered) (found : log.tasks[number]? = some task)
    (turn : TaskTurn log other number task state)
    (keeps : ∀ inode length, task.Syncs inode length →
      state.thread = some (.running inode length)) : other.Covered := by
  obtain ⟨holder, someone, length, here, syncs, covers⟩ := covered
  have content := turn.content
  have inside : number < log.tasks.length := (List.getElem?_eq_some_iff.mp found).1
  by_cases same : number = holder
  · subst same
    obtain rfl : task = someone := Option.some.inj (found.symm.trans here)
    refine ⟨number, { task with state := state }, length, ?_, ⟨syncs.1, ?_⟩, ?_⟩
    · rw [turn.tasks, List.getElem?_set_self inside]
    · rw [turn.alike.disk.log]
      exact keeps _ length syncs
    · rw [content]
      exact covers
  · refine ⟨holder, someone, length, ?_, ?_, ?_⟩
    · rw [turn.tasks, List.getElem?_set_ne same]
      exact here
    · rw [turn.alike.disk.log]
      exact syncs
    · rw [content]
      exact covers

theorem AppendsDurable.turn (appends : log.AppendsDurable)
    (turn : TaskTurn log other number task state) : other.AppendsDurable :=
  appends.mono turn.alike.records turn.content turn.durable

/-- A turn that leaves the flag to the task as it was. -/
theorem Told.turn (told : log.Told) (found : log.tasks[number]? = some task)
    (turn : TaskTurn log other number task state) (dirty : other.dirty = log.dirty)
    (keeps : ∀ inode length, task.Syncs inode length →
      state.thread = some (.running inode length)) : other.Told :=
  told.imp dirty.trans (Or.imp (·.turn turn) (·.turn found turn keeps))

theorem Flagged.turn (flagged : Flagged log) (turn : TaskTurn log other number task state)
    (queued : state.thread = some (.queued none) → task.commit = none)
    (told : other.Told) : Flagged other where
  sound := flagged.sound.of_alike turn.alike
  alone := turn.alike.detached.trans flagged.alone
  clears := by
    intro someone member waits
    rw [turn.tasks] at member
    rcases List.mem_or_eq_of_mem_set member with old | rfl
    · exact flagged.clears someone old waits
    · exact queued waits
  told := told

/-- A turn of a task that has no thread of a sync under way. -/
theorem Flagged.turn_of_idle (flagged : Flagged log) (found : log.tasks[number]? = some task)
    (turn : TaskTurn log other number task state)
    (queued : state.thread = some (.queued none) → task.commit = none)
    (dirty : other.dirty = log.dirty)
    (idle : ∀ inode length, task.state.thread ≠ some (.running inode length)) : Flagged other :=
  flagged.turn turn queued
    (flagged.told.turn found turn dirty fun inode length syncs => (idle inode length syncs.2).elim)

theorem Flagged.acquire (flagged : Flagged log) (found : log.tasks[number]? = some task) :
    Flagged (log.acquire number task) := by
  unfold AofTasks.acquire
  split_ifs with free
  · have idle (inode : Inode) (length : Nat) : task.state.thread ≠ some (.running inode length) := by
      rw [free.2]
      nofun
    have taken (state : TaskState) : TaskTurn log
        { log.setState number task state with commitLock := some number } number task state :=
      ⟨(taskTurn_setState log number task state).alike.setLock _ _ _, rfl, rfl, Nat.le_refl _,
        rfl⟩
    split
    · rename_i sync
      exact flagged.turn_of_idle found (taken _) (fun _ => sync) rfl idle
    · split_ifs
      · exact flagged.turn_of_idle found (taskTurn_setState ..) nofun rfl idle
      · split
        · exact flagged.turn_of_idle found (taskTurn_setState ..) nofun rfl idle
        · exact flagged.turn_of_idle found (taken _) nofun rfl idle
  · exact flagged

/-- A thread that clears the flag runs `fsync` on the whole file. -/
theorem Flagged.startThread (flagged : Flagged log) (found : log.tasks[number]? = some task)
    {inode : Option Inode} (queued : task.state.thread = some (.queued inode))
    (runs : state.thread = some (log.startThread inode).1) :
    Flagged ((log.startThread inode).2.setState number task state) := by
  have idle (other : Inode) (length : Nat) :
      task.state.thread ≠ some (.running other length) := by
    rw [queued]
    nofun
  have begun (inode : Option Inode) : (log.startThread inode).1 ≠ .queued none := by
    unfold AofTasks.startThread
    split
    · nofun
    · split
      · split_ifs <;> nofun
      · nofun
  have quiet : state.thread = some (.queued none) → task.commit = none := by
    intro waits
    exact (begun inode (Option.some.inj (runs.symm.trans waits))).elim
  cases inode with
  | some inode => exact flagged.turn_of_idle found (taskTurn_setState ..) quiet rfl idle
  | none =>
      have still (same : log.startThread none = (.ended true, log)) :
          Flagged ((log.startThread none).2.setState number task state) := by
        rw [same]
        exact flagged.turn_of_idle found (taskTurn_setState ..) quiet rfl idle
      cases file : log.file with
      | none => exact still (by simp only [AofTasks.startThread, file])
      | some inode =>
          obtain rfl := flagged.file file
          cases dirty : log.dirty with
          | false =>
              exact still (by
                simp only [AofTasks.startThread, file, dirty, Bool.false_eq_true, if_false])
          | true =>
              have same : log.startThread none =
                  (.running log.disk.log log.disk.content.length, { log with dirty := false }) := by
                simp only [AofTasks.startThread, file, dirty, if_true, Disk.content]
              rw [same] at runs ⊢
              have inside := (List.getElem?_eq_some_iff.mp found).1
              have commit := flagged.clears task (List.mem_of_getElem? found) queued
              refine flagged.turn ⟨(taskTurn_setState log number task state).alike.setLock
                _ _ _, rfl, rfl, Nat.le_refl _, rfl⟩ quiet (Or.inr (Or.inr ?_))
              exact ⟨number, { task with state := state }, _, List.getElem?_set_self inside,
                ⟨commit, runs⟩, Nat.le_refl _⟩

theorem Flagged.fsyncStarts (flagged : Flagged log) (found : log.tasks[number]? = some task) :
    Flagged (log.fsyncStarts number task) := by
  unfold AofTasks.fsyncStarts
  split
  · rename_i upto inode running
    exact flagged.startThread found (by rw [running]; rfl) rfl
  · rename_i inode running
    exact flagged.startThread found (by rw [running]; rfl) rfl
  · exact flagged

/-- When the `fsync` of a thread ends, the bytes it covers are durable, or its failure is
excused. -/
theorem Flagged.endThread (flagged : Flagged log) (found : log.tasks[number]? = some task)
    {inode : Inode} {length : Nat} (running : task.state.thread = some (.running inode length))
    (done : Bool) (excused : done = false → task.commit = none →
      log.dirty = true ∨ log.AppendsDurable)
    (ended : ∀ thread ∈ state.thread, thread = .ended done) :
    Flagged ((log.endThread inode length done).setState number task state) := by
  have turn := endThread_turn log inode length done number task state
  have dirty : ((log.endThread inode length done).setState number task state).dirty =
      log.dirty := by
    unfold AofTasks.endThread
    split_ifs <;> rfl
  have quiet : state.thread = some (.queued none) → task.commit = none := by
    intro waits
    cases ended _ waits
  have content := turn.content
  refine flagged.turn turn quiet ?_
  rcases flagged.told with isDirty | appends | covered
  · exact Or.inl (dirty.trans isDirty)
  · exact Or.inr (Or.inl (appends.turn turn))
  · obtain ⟨holder, someone, other, here, syncs, covers⟩ := covered
    by_cases same : number = holder
    · subst same
      obtain rfl : task = someone := Option.some.inj (found.symm.trans here)
      obtain ⟨rfl, rfl⟩ : inode = log.disk.log ∧ length = other := by
        have threads := running.symm.trans syncs.2
        simpa only [Option.some.injEq, FsyncThread.running.injEq] using threads
      cases done with
      | false => exact (excused rfl syncs.1).imp dirty.trans fun appends => Or.inl (appends.turn turn)
      | true =>
          refine Or.inr (Or.inl (appendsDurable_iff.mpr (Or.inr ?_)))
          rw [content]
          exact covers.trans (le_durable_endThread log length)
    · refine Or.inr (Or.inr ⟨holder, someone, other, ?_, ?_, content ▸ covers⟩)
      · rw [turn.tasks, List.getElem?_set_ne same]
        exact here
      · rw [turn.alike.disk.log]
        exact syncs

theorem Flagged.fsyncEnds (flagged : Flagged log) (found : log.tasks[number]? = some task)
    (done : Bool) (excused : done = false → task.commit = none → ∀ inode length,
      task.state.thread = some (.running inode length) →
        log.dirty = true ∨ log.AppendsDurable) :
    Flagged (log.fsyncEnds number task done) := by
  unfold AofTasks.fsyncEnds
  split
  · rename_i upto inode length running
    have thread : task.state.thread = some (.running inode length) := by rw [running]; rfl
    refine flagged.endThread found thread done
      (fun failed commit => excused failed commit inode length thread) ?_
    rintro _ ⟨⟩
    rfl
  · rename_i inode length running
    have thread : task.state.thread = some (.running inode length) := by rw [running]; rfl
    exact flagged.endThread found thread done
      (fun failed commit => excused failed commit inode length thread) nofun
  · exact flagged

theorem Flagged.resume (flagged : Flagged log) (found : log.tasks[number]? = some task) :
    Flagged (log.resume number task) := by
  unfold AofTasks.resume
  split
  · rename_i upto done running
    have idle (inode : Inode) (length : Nat) :
        task.state.thread ≠ some (.running inode length) := by
      rw [running]
      nofun
    have freed (durableSeq : Nat) (state : TaskState) : TaskTurn log
        { { log with commitLock := none }.setState number task state with
          durableSeq := durableSeq } number task state :=
      ⟨(taskTurn_setState log number task state).alike.setLock _ _ _, rfl, rfl, Nat.le_refl _,
        rfl⟩
    split
    · exact flagged.turn_of_idle found (freed upto .returned) nofun rfl idle
    · exact flagged.turn_of_idle found (freed log.durableSeq .returned) nofun rfl idle
    · exact flagged.turn_of_idle found (freed log.durableSeq .raised) nofun rfl idle
  · exact flagged

/-- A task that is cancelled leaves its thread as it is. -/
theorem Flagged.cancel (flagged : Flagged log) (found : log.tasks[number]? = some task) :
    Flagged (log.cancel number task) := by
  unfold AofTasks.cancel
  split
  · rename_i waiting
    refine flagged.turn_of_idle found (taskTurn_setState ..) nofun rfl fun inode length => ?_
    rw [waiting]
    nofun
  · rename_i upto thread running
    have left : TaskTurn log { log.setState number task (.cancelled (some thread)) with
        commitLock := none } number task (.cancelled (some thread)) :=
      ⟨(taskTurn_setState log number task _).alike.setLock _ _ none, rfl, rfl, Nat.le_refl _, rfl⟩
    have same : task.state.thread = some thread := by rw [running]; rfl
    exact flagged.turn left
      (fun queued => flagged.clears task (List.mem_of_getElem? found) (same.trans queued))
      (flagged.told.turn found left rfl fun inode length syncs => same.symm.trans syncs.2)
  · exact flagged

end Turns

section Rewrites

/-- What happens beside the file of the log is no matter to the flag. -/
theorem Flagged.aside (flagged : Flagged log) {store : Store} {disk : Disk}
    {file : Option Inode} {buffer : Option (List Bytes)} {rewriting : Rewriting}
    (beside : log.disk.Beside disk)
    (sound : Sound { log with
      store := store
      disk := disk
      file := file
      rewriteBuffer := buffer
      rewriting := rewriting }) :
    Flagged { log with
      store := store
      disk := disk
      file := file
      rewriteBuffer := buffer
      rewriting := rewriting } := by
  have content : disk.content = log.disk.content := by
    rw [Disk.content, beside.log, beside.file, Disk.content]
  have durable : log.durable = (disk.files disk.log).durable := by
    rw [beside.log, beside.file, AofTasks.durable]
  refine ⟨sound, flagged.alone, flagged.clears, flagged.told.imp id (Or.imp ?_ ?_)⟩
  · exact fun appends => appends.mono rfl content durable.le
  · rintro ⟨number, task, length, here, syncs, covers⟩
    exact ⟨number, task, length, here, beside.log.symm ▸ syncs, content.symm ▸ covers⟩

theorem Flagged.spawn (flagged : Flagged log) (waits : task.state.thread = none) :
    Flagged { log with tasks := log.tasks ++ [task] } where
  sound := flagged.sound.of_alike ⟨.refl log.disk, rfl, rfl, rfl, rfl, rfl, rfl, rfl⟩
  alone := flagged.alone
  clears := by
    intro someone member queued
    rcases List.mem_append.mp member with old | new
    · exact flagged.clears someone old queued
    · rw [List.mem_singleton.mp new, waits] at queued
      cases queued
  told := by
    refine flagged.told.imp id (Or.imp id ?_)
    rintro ⟨number, someone, length, here, syncs, covers⟩
    have inside : number < log.tasks.length := (List.getElem?_eq_some_iff.mp here).1
    exact ⟨number, someone, length, (List.getElem?_append_left inside).trans here, syncs, covers⟩

/-- An append sets the flag. -/
theorem Flagged.write (flagged : Flagged log) (store : Store) (commands : List (List Arg)) :
    Flagged (log.write store commands) := by
  have sound := flagged.sound.write store commands
  unfold AofTasks.write at sound ⊢
  split at sound
  · exact flagged.aside (.refl log.disk) sound
  · rename_i inode opened
    obtain rfl := flagged.file opened
    generalize commands.map encodeCommand = data at sound ⊢
    refine ⟨sound, flagged.alone, flagged.clears, ?_⟩
    cases data with
    | cons record rest => exact Or.inl (Bool.or_true _)
    | nil =>
        have content : (log.disk.append log.disk.log []).content = log.disk.content := by
          rw [Disk.content_append, List.append_nil]
        refine flagged.told.imp (fun dirty => ?_) (Or.imp (fun appends => ?_) ?_)
        · simpa only [Bool.or_eq_true] using Or.inl dirty
        · exact appends.mono (List.append_nil _) content (log.disk.durable_append []).ge
        · rintro ⟨number, task, length, here, syncs, covers⟩
          exact ⟨number, task, length, here, syncs, content.symm ▸ covers⟩

theorem Flagged.rewrite (flagged : Flagged log) (clock : Clock) : Flagged (log.rewrite clock) := by
  have sound := flagged.sound.rewrite flagged.alone clock
  unfold AofTasks.rewrite at sound ⊢
  split_ifs at sound ⊢
  · exact flagged
  · exact flagged.aside (.refl log.disk) sound

theorem Flagged.writer (flagged : Flagged log) (progress : Progress) :
    Flagged (log.writer progress) := by
  have sound := flagged.sound.writer progress
  have prepared := flagged.sound.prepared
  unfold AofTasks.writer at sound ⊢
  split at sound
  · rename_i origin thread rewriting
    rw [rewriting] at prepared
    exact flagged.aside (prepared.2.1.step flagged.sound.disk progress).2.1 sound
  · exact flagged

theorem Flagged.failRewrite (flagged : Flagged log) : Flagged log.failRewrite :=
  flagged.aside ⟨rfl, Nat.le_refl _, rfl⟩
    (flagged.sound.failRewrite flagged.sound.disk (.refl log.disk) flagged.sound.file)

theorem Flagged.resumeRewrite (flagged : Flagged log) : Flagged log.resumeRewrite := by
  have sound := flagged.sound.resumeRewrite
  unfold AofTasks.resumeRewrite at sound ⊢
  split at sound
  · exact flagged.aside (.refl log.disk) sound
  · exact flagged.failRewrite
  · exact flagged

theorem Flagged.cancelSwap (flagged : Flagged log) : Flagged log.cancelSwap := by
  unfold AofTasks.cancelSwap
  split
  · exact flagged.failRewrite
  · exact flagged

/-- The flag is cleared for a file that is durable. -/
theorem Flagged.swap (flagged : Flagged log) (outcome : SwapOutcome) :
    Flagged (log.swap outcome) := by
  have sound := flagged.sound.swap outcome
  unfold AofTasks.swap at sound ⊢
  split at sound
  · obtain ⟨-, opened, -, -, apart⟩ := flagged.sound.disk.openAppend
    have appended (data : Bytes) :
        log.disk.Beside (log.disk.openAppend.2.append log.disk.openAppend.1 data) :=
      opened.trans (Disk.beside_append (opened.log ▸ apart) data)
    have synced (data : Bytes) : log.disk.Beside
        ((log.disk.openAppend.2.append log.disk.openAppend.1 data).fsync
          log.disk.openAppend.1) :=
      (appended data).trans (Disk.beside_settle (opened.log ▸ apart) _)
    split_ifs at sound ⊢
    · cases outcome with
      | openFails => exact flagged.failRewrite
      | writeFails count => exact flagged.aside (appended _).unlink sound
      | fsyncFails => exact flagged.aside (appended _).unlink sound
      | closeFails => exact flagged.aside (synced _).unlink sound
      | replaceFails => exact flagged.aside (synced _).unlink sound
      | replaced =>
          refine ⟨sound, flagged.alone, flagged.clears, Or.inr (Or.inl ?_)⟩
          exact appendsDurable_iff.mpr (Or.inr (content_le_durable_replace _ _))
    · exact flagged
  · exact flagged

end Rewrites

theorem Sound.closed (sound : Sound log) : Sound { log with file := none } := by
  refine ⟨sound.disk, sound.detached, Or.inl rfl, sound.covered, sound.content, ?_⟩
  have prepared := sound.prepared
  dsimp only
  cases state : log.rewriting with
  | idle =>
      rw [state] at prepared
      exact prepared
  | writing origin thread =>
      rw [state] at prepared
      obtain ⟨pending, thread⟩ := prepared
      exact ⟨⟨pending.covered, pending.buffer, pending.alone⟩, thread⟩
  | waiting origin =>
      rw [state] at prepared
      obtain ⟨pending, holds⟩ := prepared
      exact ⟨⟨pending.covered, pending.buffer, pending.alone⟩, holds⟩

/-- `close` clears the flag and closes the file, or its failure is excused. -/
theorem Flagged.close (flagged : Flagged log) (done : Bool)
    (excused : SyncStep.Excused log (.close done)) : Flagged (log.close done) := by
  cases file : log.file with
  | none => simpa only [AofTasks.close, file] using flagged
  | some inode =>
      obtain rfl := flagged.file file
      cases dirty : log.dirty with
      | false =>
          have same : log.close done = { log with file := none } := by
            simp only [AofTasks.close, sync, file, dirty, Bool.false_eq_true, if_false, if_true]
          rw [same]
          exact ⟨flagged.sound.closed, flagged.alone, flagged.clears, flagged.told⟩
      | true =>
          cases done with
          | false =>
              have same : log.close false = { log with dirty := false } := by
                simp only [AofTasks.close, sync, file, dirty, Bool.false_eq_true, if_false, if_true]
              have appends := excused (by rw [file]; nofun) dirty
              rw [same]
              exact ⟨flagged.sound.of_alike ((Alike.refl log).setLock _ _ _), flagged.alone,
                flagged.clears, Or.inr (Or.inl appends)⟩
          | true =>
              have same : log.close true = { log with
                  dirty := false
                  disk := log.disk.fsync log.disk.log
                  file := none } := by
                simp only [AofTasks.close, sync, file, dirty, if_true]
              have settled : Alike log { log with
                  dirty := false
                  disk := log.disk.fsync log.disk.log } :=
                ⟨log.disk.alike_settle _ _, rfl, rfl, rfl, rfl, rfl, rfl, rfl⟩
              rw [same]
              refine ⟨(flagged.sound.of_alike settled).closed, flagged.alone, flagged.clears,
                Or.inr (Or.inl (appendsDurable_iff.mpr (Or.inr ?_)))⟩
              exact log.disk.length_le_durable_fsync log.disk.log

/-- Every turn keeps what answers for the bytes, if its failures are excused. -/
theorem Flagged.step (flagged : Flagged log) {step : SyncStep} (excused : step.Excused log) :
    Flagged (log.syncStep step) := by
  have onTask {turn : AofTasks → Nat → AofTask → AofTasks} (number : Nat)
      (keeps : ∀ task, log.tasks[number]? = some task → Flagged (turn log number task)) :
      Flagged (log.onTask number turn) := by
    unfold AofTasks.onTask
    split
    · exact flagged
    · rename_i task found
      exact keeps task found
  cases step with
  | close done => exact flagged.close done excused
  | turn step =>
      cases step with
      | write store commands => exact flagged.write store commands
      | commit =>
          refine flagged.spawn ?_
          dsimp only
          split_ifs <;> rfl
      | syncAsync => exact flagged.spawn rfl
      | acquire number => exact onTask number fun _ found => flagged.acquire found
      | fsyncStarts number => exact onTask number fun _ found => flagged.fsyncStarts found
      | fsyncEnds number done =>
          refine @onTask (fun log number task => log.fsyncEnds number task done) number
            fun task found => flagged.fsyncEnds found done fun failed commit inode length runs => ?_
          subst failed
          exact excused task found inode length ⟨commit, runs⟩
      | resume number => exact onTask number fun _ found => flagged.resume found
      | cancel number => exact onTask number fun _ found => flagged.cancel found
      | rewrite clock => exact flagged.rewrite clock
      | writer progress => exact flagged.writer progress
      | resumeRewrite => exact flagged.resumeRewrite
      | swap outcome => exact flagged.swap outcome
      | cancelSwap => exact flagged.cancelSwap

theorem Flagged.run (flagged : Flagged log) {steps : List SyncStep} (excused : log.Excused steps) :
    Flagged (log.runSync steps) := by
  induction steps generalizing log with
  | nil => exact flagged
  | cons step steps ih => exact ih (flagged.step excused.1) excused.2

end AofTasks

end MiniCache
