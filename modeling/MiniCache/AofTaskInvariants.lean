import MiniCache.AofTasks

/-!
# What the files of the log hold

The file at the path of the log begins with its origin and goes on with the records that
were appended since, and while a rewrite runs the buffer and the temporary file make up
the log that is to replace it.  Every turn of a task keeps this.
-/

namespace MiniCache

namespace Disk

variable (disk : Disk) (inode other : Inode) (data : Bytes)

theorem files_update (change : DiskFile → DiskFile) :
    (disk.update inode change).files other =
      if other = inode then change (disk.files inode) else disk.files other :=
  Function.update_apply ..

theorem files_update_of_ne {disk : Disk} {inode other : Inode} (different : other ≠ inode)
    (change : DiskFile → DiskFile) : (disk.update inode change).files other = disk.files other :=
  Function.update_of_ne different ..

theorem content_append : (disk.append disk.log data).content = disk.content ++ data := by
  rw [content, append, files_update]
  exact congrArg DiskFile.content (if_pos rfl)

theorem durable_append (data : Bytes) :
    ((disk.append disk.log data).files disk.log).durable = (disk.files disk.log).durable := by
  rw [append, files_update, if_pos rfl]

theorem content_settle (length : Nat) :
    ((disk.settle inode length).files other).content = (disk.files other).content := by
  rw [settle, files_update]
  split_ifs with same
  · rw [same]
  · rfl

theorem durable_settle_le (length : Nat) :
    (disk.files other).durable ≤ ((disk.settle inode length).files other).durable := by
  rw [settle, files_update]
  split_ifs with same
  · rw [same]
    exact Nat.le_max_left _ _
  · exact Nat.le_refl _

theorem length_le_durable_settle (length : Nat) :
    length ≤ ((disk.settle inode length).files inode).durable := by
  rw [settle, files_update, if_pos rfl]
  exact Nat.le_max_right _ _

theorem length_le_durable_fsync : ((disk.fsync inode).files inode).content.length ≤
    ((disk.fsync inode).files inode).durable := by
  rw [fsync, content_settle]
  exact disk.length_le_durable_settle inode _

/-- Each path has its own inode, and new inodes are new. -/
structure Sound (disk : Disk) : Prop where
  log : disk.log < disk.fresh
  tmp : ∀ inode ∈ disk.tmp, inode < disk.fresh ∧ inode ≠ disk.log

theorem sound_init (content : Bytes) (tmp : Option Bytes) : Sound (init content tmp) := by
  refine ⟨Nat.two_pos, ?_⟩
  cases tmp with
  | none => exact nofun
  | some left =>
      rintro inode ⟨⟩
      exact ⟨Nat.one_lt_two, Nat.one_ne_zero⟩

variable {disk inode other}

/-- Two disks with the same paths, where the file of the log is the same. -/
structure Beside (disk other : Disk) : Prop where
  log : other.log = disk.log
  fresh : disk.fresh ≤ other.fresh
  file : other.files disk.log = disk.files disk.log

theorem Beside.refl (disk : Disk) : Beside disk disk := ⟨rfl, Nat.le_refl _, rfl⟩

theorem Beside.trans {middle last : Disk} (first : Beside disk middle)
    (second : Beside middle last) : Beside disk last := by
  refine ⟨second.log.trans first.log, first.fresh.trans second.fresh, ?_⟩
  have same := second.file
  rw [first.log] at same
  exact same.trans first.file

theorem Beside.unlink {later : Disk} (beside : Beside disk later) : Beside disk later.unlink :=
  ⟨beside.log, beside.fresh, beside.file⟩

theorem beside_update (apart : inode ≠ disk.log) (change : DiskFile → DiskFile) :
    Beside disk (disk.update inode change) :=
  ⟨rfl, Nat.le_refl _, files_update_of_ne (Ne.symm apart) change⟩

theorem beside_append (apart : inode ≠ disk.log) (data : Bytes) :
    Beside disk (disk.append inode data) :=
  beside_update apart _

theorem beside_overwrite (apart : inode ≠ disk.log) (data : Bytes) :
    Beside disk (disk.overwrite inode data) :=
  beside_update apart _

theorem beside_settle (apart : inode ≠ disk.log) (length : Nat) :
    Beside disk (disk.settle inode length) :=
  beside_update apart _

/-- The temporary file that is opened is not the log. -/
theorem Sound.openAppend (sound : Sound disk) :
    Sound disk.openAppend.2 ∧ Beside disk disk.openAppend.2 ∧
      disk.openAppend.2.tmp = some disk.openAppend.1 ∧
      disk.openAppend.1 < disk.openAppend.2.fresh ∧ disk.openAppend.1 ≠ disk.log := by
  unfold Disk.openAppend
  cases tmp : disk.tmp with
  | some inode =>
      obtain ⟨below, apart⟩ := sound.tmp inode tmp
      exact ⟨sound, Beside.refl disk, tmp, below, apart⟩
  | none =>
      have apart : disk.fresh ≠ disk.log := sound.log.ne'
      refine ⟨⟨Nat.lt_succ_of_lt sound.log, ?_⟩, ⟨rfl, Nat.le_succ _,
        Function.update_of_ne (Ne.symm apart) ..⟩, rfl, Nat.lt_succ_self _, apart⟩
      rintro inode ⟨⟩
      exact ⟨Nat.lt_succ_self _, apart⟩

theorem Sound.openWrite (sound : Sound disk) :
    Sound disk.openWrite.2 ∧ Beside disk disk.openWrite.2 ∧
      disk.openWrite.2.tmp = some disk.openWrite.1 ∧
      disk.openWrite.1 < disk.openWrite.2.fresh ∧ disk.openWrite.1 ≠ disk.log ∧
      (disk.openWrite.2.files disk.openWrite.1).content = [] := by
  obtain ⟨opened, beside, tmp, below, apart⟩ := sound.openAppend
  have truncated := @beside_update disk.openAppend.2 disk.openAppend.1 (beside.log ▸ apart)
    fun _ => ⟨[], 0⟩
  refine ⟨⟨opened.log, opened.tmp⟩, beside.trans truncated, tmp, below, apart, ?_⟩
  simp only [Disk.openWrite, files_update, if_true]

/-- Two disks that differ in what is durable alone. -/
structure Alike (disk other : Disk) : Prop where
  log : other.log = disk.log
  tmp : other.tmp = disk.tmp
  fresh : other.fresh = disk.fresh
  content : ∀ inode, (other.files inode).content = (disk.files inode).content

theorem Alike.refl (disk : Disk) : Alike disk disk := ⟨rfl, rfl, rfl, fun _ => rfl⟩

theorem alike_settle (disk : Disk) (inode : Inode) (length : Nat) :
    Alike disk (disk.settle inode length) :=
  ⟨rfl, rfl, rfl, fun _ => disk.content_settle inode _ length⟩

/-- The temporary file holds a payload. -/
def Holds (disk : Disk) (payload : Bytes) : Prop :=
  ∃ inode, disk.tmp = some inode ∧ (disk.files inode).content = payload

end Disk

namespace WriterThread

/-- The thread does not write to the log. -/
def Apart (disk : Disk) : WriterThread → Prop
  | .opened inode _ | .written inode => inode < disk.fresh ∧ inode ≠ disk.log
  | .queued _ | .ended _ => True

/-- The thread is on its way to a temporary file that holds a payload. -/
def Writes (disk : Disk) (payload : Bytes) : WriterThread → Prop
  | .queued data => data = payload
  | .opened inode data =>
      data = payload ∧ disk.tmp = some inode ∧ (disk.files inode).content = []
  | .written inode => disk.tmp = some inode ∧ (disk.files inode).content = payload
  | .ended true => disk.Holds payload
  | .ended false => True

variable {disk other : Disk} {thread : WriterThread} {payload : Bytes}

theorem Apart.of_beside (apart : thread.Apart disk) (beside : disk.Beside other) :
    thread.Apart other := by
  cases thread with
  | queued payload => trivial
  | opened inode payload =>
      exact ⟨apart.1.trans_le beside.fresh, beside.log ▸ apart.2⟩
  | written inode => exact ⟨apart.1.trans_le beside.fresh, beside.log ▸ apart.2⟩
  | ended done => trivial

/-- A system call of the thread leaves the log alone. -/
theorem Apart.step (apart : thread.Apart disk) (sound : disk.Sound) (progress : Progress) :
    (thread.step disk progress).2.Sound ∧ disk.Beside (thread.step disk progress).2 ∧
      (thread.step disk progress).1.Apart (thread.step disk progress).2 := by
  cases thread with
  | queued payload =>
      cases progress with
      | done =>
          obtain ⟨opened, beside, -, below, different, -⟩ := sound.openWrite
          exact ⟨opened, beside, below, beside.log ▸ different⟩
      | fails count => exact ⟨sound, .refl disk, trivial⟩
  | opened inode payload =>
      cases progress with
      | done => exact ⟨⟨sound.log, sound.tmp⟩, Disk.beside_overwrite apart.2 payload, apart⟩
      | fails count => exact ⟨⟨sound.log, sound.tmp⟩, Disk.beside_overwrite apart.2 _, trivial⟩
  | written inode =>
      cases progress with
      | done => exact ⟨⟨sound.log, sound.tmp⟩, Disk.beside_settle apart.2 _, trivial⟩
      | fails count => exact ⟨sound, .refl disk, trivial⟩
  | ended done => exact ⟨sound, .refl disk, trivial⟩

/-- A system call brings the temporary file nearer to the payload. -/
theorem Writes.step (writes : thread.Writes disk payload) (sound : disk.Sound)
    (progress : Progress) :
    (thread.step disk progress).1.Writes (thread.step disk progress).2 payload := by
  cases thread with
  | queued data =>
      cases progress with
      | done =>
          obtain ⟨-, -, tmp, -, -, empty⟩ := sound.openWrite
          exact ⟨writes, tmp, empty⟩
      | fails count => trivial
  | opened inode data =>
      cases progress with
      | done =>
          obtain ⟨rfl, tmp, empty⟩ := writes
          refine ⟨tmp, ?_⟩
          simp only [WriterThread.step, Disk.overwrite, Disk.files_update, if_true, empty,
            List.drop_nil, List.append_nil]
      | fails count => trivial
  | written inode =>
      cases progress with
      | done => exact ⟨inode, writes.1, (disk.content_settle ..).trans writes.2⟩
      | fails count => trivial
  | ended done => exact writes

/-- Only the temporary file matters to the thread. -/
theorem Writes.of_same (writes : thread.Writes disk payload) (tmp : other.tmp = disk.tmp)
    (content : ∀ inode ∈ disk.tmp, (other.files inode).content = (disk.files inode).content) :
    thread.Writes other payload := by
  cases thread with
  | queued data => exact writes
  | opened inode data =>
      exact ⟨writes.1, tmp.trans writes.2.1, (content inode writes.2.1).trans writes.2.2⟩
  | written inode => exact ⟨tmp.trans writes.1, (content inode writes.1).trans writes.2⟩
  | ended done =>
      cases done with
      | true =>
          obtain ⟨inode, here, holds⟩ := writes
          exact ⟨inode, tmp.trans here, (content inode here).trans holds⟩
      | false => trivial

end WriterThread

/-- A turn of a task in `commit` or `sync_async`. -/
def AofStep.AtLock : AofStep → Prop
  | .commit | .syncAsync | .acquire _ | .fsyncStarts _ | .fsyncEnds _ _ | .resume _
  | .cancel _ => True
  | _ => False

namespace AofTasks

variable {log other : AofTasks}

/-- The buffer of a rewrite holds the records appended since its snapshot. -/
structure Pending (log : AofTasks) (origin : Origin) : Prop where
  covered : origin.covered ≤ log.records.length
  buffer : log.rewriteBuffer = some (log.records.drop origin.covered)
  alone : log.detached = []

/-- What a rewrite has prepared. -/
def Prepared (log : AofTasks) : Rewriting → Prop
  | .idle => log.rewriteBuffer = none
  | .writing origin thread =>
      Pending log origin ∧ thread.Apart log.disk ∧ thread.Writes log.disk origin.head
  | .waiting origin => Pending log origin ∧ log.disk.Holds origin.head

/-- The log is its origin and the records since, and a rewrite is on its way. -/
structure Sound (log : AofTasks) : Prop where
  disk : log.disk.Sound
  detached : ∀ thread ∈ log.detached, thread.Apart log.disk
  file : log.file = none ∨ log.file = some log.disk.log
  covered : log.origin.covered ≤ log.records.length
  content : log.disk.content =
    log.origin.head ++ (log.records.drop log.origin.covered).flatten
  prepared : log.Prepared log.rewriting

theorem sound_init (fsync : FsyncPolicy) (store : Store) (content : Bytes)
    (tmp : Option Bytes) : Sound (init fsync store content tmp) where
  disk := Disk.sound_init content tmp
  detached := nofun
  file := Or.inr rfl
  covered := Nat.le_refl 0
  content := (List.append_nil content).symm
  prepared := rfl

/-- A turn that leaves the files, the records and the rewrite alone. -/
structure Alike (log other : AofTasks) : Prop where
  disk : log.disk.Alike other.disk
  file : other.file = log.file
  buffer : other.rewriteBuffer = log.rewriteBuffer
  rewriting : other.rewriting = log.rewriting
  rewrites : other.rewrites = log.rewrites
  detached : other.detached = log.detached
  records : other.records = log.records
  origin : other.origin = log.origin

theorem Alike.refl (log : AofTasks) : Alike log log :=
  ⟨.refl log.disk, rfl, rfl, rfl, rfl, rfl, rfl, rfl⟩

theorem Sound.of_alike (sound : Sound log) (alike : Alike log other) : Sound other := by
  obtain ⟨⟨path, tmp, fresh, content⟩, file, buffer, rewriting, -, detached, records, origin⟩ :=
    alike
  have beside (thread : WriterThread) (apart : thread.Apart log.disk) :
      thread.Apart other.disk := by
    cases thread with
    | queued payload => trivial
    | opened inode payload => exact ⟨fresh ▸ apart.1, path ▸ apart.2⟩
    | written inode => exact ⟨fresh ▸ apart.1, path ▸ apart.2⟩
    | ended done => trivial
  refine ⟨⟨by rw [path, fresh]; exact sound.disk.log, by
      rw [tmp, path, fresh]; exact sound.disk.tmp⟩, ?_, by rw [file, path]; exact sound.file,
    by rw [origin, records]; exact sound.covered, ?_, ?_⟩
  · rw [detached]
    exact fun thread member => beside thread (sound.detached thread member)
  · rw [Disk.content, path, content, origin, records]
    exact sound.content
  · have prepared := sound.prepared
    have pending {origin : Origin} (pending : Pending log origin) : Pending other origin :=
      ⟨by rw [records]; exact pending.covered, by rw [buffer, records]; exact pending.buffer,
        by rw [detached]; exact pending.alone⟩
    rw [rewriting]
    cases state : log.rewriting with
    | idle =>
        rw [state] at prepared
        exact buffer.trans prepared
    | writing origin thread =>
        rw [state] at prepared
        exact ⟨pending prepared.1, beside thread prepared.2.1,
          prepared.2.2.of_same tmp fun inode _ => content inode⟩
    | waiting origin =>
        rw [state] at prepared
        obtain ⟨waits, inode, here, holds⟩ := prepared
        exact ⟨pending waits, inode, tmp.trans here, (content inode).trans holds⟩

section Turns

variable (log : AofTasks) (number : Nat) (task : AofTask)

variable {log} in
theorem Alike.setState (alike : Alike log other) (state : TaskState) :
    Alike log (other.setState number task state) :=
  ⟨alike.disk, alike.file, alike.buffer, alike.rewriting, alike.rewrites, alike.detached,
    alike.records, alike.origin⟩

variable {log} in
theorem Alike.setLock (alike : Alike log other) (durableSeq : Nat) (dirty : Bool)
    (commitLock : Option Nat) :
    Alike log { other with
      durableSeq := durableSeq
      dirty := dirty
      commitLock := commitLock } :=
  ⟨alike.disk, alike.file, alike.buffer, alike.rewriting, alike.rewrites, alike.detached,
    alike.records, alike.origin⟩

theorem alike_acquire : Alike log (log.acquire number task) := by
  have set (state : TaskState) : Alike log (log.setState number task state) :=
    (Alike.refl log).setState number task state
  unfold acquire
  split_ifs
  · split
    · exact (set _).setLock _ _ (some number)
    · split_ifs
      · exact set _
      · split
        · exact set _
        · exact (set _).setLock _ _ (some number)
  · exact .refl log

theorem alike_startThread (inode : Option Inode) : Alike log (log.startThread inode).2 := by
  unfold startThread
  split
  · exact .refl log
  · split
    · split_ifs
      · exact (Alike.refl log).setLock _ false _
      · exact .refl log
    · exact .refl log

theorem alike_fsyncStarts : Alike log (log.fsyncStarts number task) := by
  unfold fsyncStarts
  split
  · exact (alike_startThread log _).setState number task _
  · exact (alike_startThread log _).setState number task _
  · exact .refl log

theorem alike_fsyncEnds (done : Bool) : Alike log (log.fsyncEnds number task done) := by
  have settled (inode length : Nat) : Alike log (log.endThread inode length done) := by
    unfold endThread
    split_ifs
    · exact ⟨log.disk.alike_settle inode length, rfl, rfl, rfl, rfl, rfl, rfl, rfl⟩
    · exact .refl log
  unfold fsyncEnds
  split
  · exact (settled _ _).setState number task _
  · exact (settled _ _).setState number task _
  · exact .refl log

theorem alike_resume : Alike log (log.resume number task) := by
  have free (state : TaskState) :
      Alike log ({ log with commitLock := none }.setState number task state) :=
    ((Alike.refl log).setLock _ _ none).setState number task state
  unfold resume
  split
  · split
    · exact (free _).setLock _ _ _
    · exact free _
    · exact free _
  · exact .refl log

theorem alike_cancel : Alike log (log.cancel number task) := by
  have set (state : TaskState) : Alike log (log.setState number task state) :=
    (Alike.refl log).setState number task state
  unfold cancel
  split
  · exact set _
  · exact (set _).setLock _ _ none
  · exact .refl log

theorem alike_onTask {turn : AofTasks → Nat → AofTask → AofTasks}
    (alike : ∀ task, Alike log (turn log number task)) : Alike log (log.onTask number turn) := by
  unfold onTask
  split
  · exact .refl log
  · exact alike _

/-- What happens at the lock leaves the files, the records and the rewrite alone. -/
theorem alike_of_task {step : AofStep} (atLock : step.AtLock) : Alike log (log.step step) := by
  cases step with
  | commit | syncAsync => exact ⟨.refl log.disk, rfl, rfl, rfl, rfl, rfl, rfl, rfl⟩
  | acquire number => exact alike_onTask log number (alike_acquire log number)
  | fsyncStarts number => exact alike_onTask log number (alike_fsyncStarts log number)
  | fsyncEnds number done =>
      exact @alike_onTask log number (fun log number task => log.fsyncEnds number task done)
        fun task => alike_fsyncEnds log number task done
  | resume number => exact alike_onTask log number (alike_resume log number)
  | cancel number => exact alike_onTask log number (alike_cancel log number)
  | write | rewrite | writer | resumeRewrite | swap | cancelSwap => exact atLock.elim

end Turns

theorem Pending.append {origin : Origin} (pending : Pending log origin) {data : List Bytes}
    (records : other.records = log.records ++ data)
    (buffer : other.rewriteBuffer = log.rewriteBuffer.map (· ++ data))
    (detached : other.detached = log.detached) : Pending other origin := by
  refine ⟨?_, ?_, detached.trans pending.alone⟩
  · rw [records, List.length_append]
    exact pending.covered.trans (Nat.le_add_right _ _)
  · rw [buffer, pending.buffer, records, List.drop_append_of_le_length pending.covered]
    rfl

/-- The records of a turn of a client go to the end of the log and of the buffer. -/
theorem Sound.write (sound : Sound log) (store : Store) (commands : List (List Arg)) :
    Sound (log.write store commands) := by
  rcases sound.file with closed | isOpen
  · simp only [AofTasks.write, closed]
    exact sound.of_alike ⟨.refl log.disk, closed.symm, rfl, rfl, rfl, rfl, rfl, rfl⟩
  · have others {inode : Inode} (apart : inode ≠ log.disk.log) (data : Bytes) :
        (log.disk.append log.disk.log data).files inode = log.disk.files inode :=
      Disk.files_update_of_ne apart _
    have temporary (data : Bytes) : ∀ inode ∈ log.disk.tmp,
        ((log.disk.append log.disk.log data).files inode).content =
          (log.disk.files inode).content :=
      fun inode here => congrArg DiskFile.content (others (sound.disk.tmp inode here).2 data)
    simp only [AofTasks.write, isOpen]
    generalize commands.map encodeCommand = data
    refine ⟨⟨sound.disk.log, sound.disk.tmp⟩, ?_, Or.inr rfl, ?_, ?_, ?_⟩
    · intro thread member
      have apart := sound.detached thread member
      cases thread <;> exact apart
    · rw [List.length_append]
      exact sound.covered.trans (Nat.le_add_right _ _)
    · rw [List.drop_append_of_le_length sound.covered, List.flatten_append, ← List.append_assoc, ← sound.content]
      exact log.disk.content_append data.flatten
    · have prepared := sound.prepared
      cases state : log.rewriting with
      | idle =>
          rw [state] at prepared
          exact congrArg (Option.map (· ++ data)) prepared
      | writing origin thread =>
          rw [state] at prepared
          refine ⟨prepared.1.append rfl rfl rfl, ?_, prepared.2.2.of_same rfl (temporary _)⟩
          have apart := prepared.2.1
          cases thread <;> exact apart
      | waiting origin =>
          rw [state] at prepared
          obtain ⟨waits, inode, here, holds⟩ := prepared
          exact ⟨waits.append rfl rfl rfl, inode, here, (temporary _ inode here).trans holds⟩

section Rewrites

/-- A rewrite that fails leaves the log as it is. -/
theorem Sound.failRewrite (sound : Sound log) {disk : Disk} (diskSound : disk.Sound)
    (beside : log.disk.Beside disk) {file : Option Inode}
    (opened : file = none ∨ file = some disk.log) :
    Sound { log with disk := disk, file := file }.failRewrite := by
  refine ⟨⟨diskSound.log, nofun⟩, ?_, opened, sound.covered, ?_, rfl⟩
  · intro thread member
    have apart := (sound.detached thread member).of_beside beside
    cases thread <;> exact apart
  · have same : disk.content = log.disk.content := by
      rw [Disk.content, beside.log, beside.file, Disk.content]
    exact same.trans sound.content

/-- A snapshot of the store stands for all the records so far. -/
theorem Sound.rewrite (sound : Sound log) (alone : log.detached = []) (clock : Clock) :
    Sound (log.rewrite clock) := by
  unfold AofTasks.rewrite
  split_ifs
  · exact sound
  · exact ⟨sound.disk, sound.detached, sound.file, sound.covered, sound.content,
      ⟨Nat.le_refl _, by simp, alone⟩, trivial, rfl⟩

theorem Sound.writer (sound : Sound log) (progress : Progress) : Sound (log.writer progress) := by
  have prepared := sound.prepared
  unfold AofTasks.writer
  split
  · rename_i origin thread rewriting
    rw [rewriting] at prepared
    obtain ⟨pending, apart, writes⟩ := prepared
    obtain ⟨disk, beside, later⟩ := apart.step sound.disk progress
    refine ⟨disk, ?_, ?_, sound.covered, ?_, ⟨pending.covered, pending.buffer, pending.alone⟩,
      later, writes.step sound.disk progress⟩
    · intro detached member
      rw [pending.alone] at member
      cases member
    · rw [beside.log]
      exact sound.file
    · rw [Disk.content, beside.log, beside.file]
      exact sound.content
  · exact sound

theorem Sound.resumeRewrite (sound : Sound log) : Sound log.resumeRewrite := by
  have prepared := sound.prepared
  unfold AofTasks.resumeRewrite
  split
  · rename_i origin rewriting
    rw [rewriting] at prepared
    exact ⟨sound.disk, sound.detached, sound.file, sound.covered, sound.content,
      ⟨prepared.1.covered, prepared.1.buffer, prepared.1.alone⟩, prepared.2.2⟩
  · exact sound.failRewrite sound.disk (.refl log.disk) sound.file
  · exact sound

theorem Sound.cancelSwap (sound : Sound log) : Sound log.cancelSwap := by
  unfold AofTasks.cancelSwap
  split
  · exact sound.failRewrite sound.disk (.refl log.disk) sound.file
  · exact sound

/-- The swap puts a file in place of the log that holds the snapshot and the records since,
or it fails and leaves the log as it is. -/
theorem Sound.swap (sound : Sound log) (outcome : SwapOutcome) : Sound (log.swap outcome) := by
  have prepared := sound.prepared
  unfold AofTasks.swap
  split
  · rename_i origin rewriting
    rw [rewriting] at prepared
    obtain ⟨pending, inode, here, holds⟩ := prepared
    obtain ⟨below, apart⟩ := sound.disk.tmp inode here
    have opened : log.disk.openAppend = (inode, log.disk) := by
      rw [Disk.openAppend, here]
    have appended (data : Bytes) :
        (log.disk.append inode data).Sound ∧ log.disk.Beside (log.disk.append inode data) :=
      ⟨⟨sound.disk.log, sound.disk.tmp⟩, Disk.beside_append apart data⟩
    have synced (data : Bytes) : ((log.disk.append inode data).fsync inode).Sound ∧
        log.disk.Beside ((log.disk.append inode data).fsync inode) :=
      ⟨⟨sound.disk.log, sound.disk.tmp⟩, (appended data).2.trans
        (@Disk.beside_settle (log.disk.append inode data) inode apart _)⟩
    split_ifs
    · simp only [opened]
      cases outcome with
      | openFails => exact sound.failRewrite sound.disk (.refl log.disk) sound.file
      | writeFails count =>
          exact sound.failRewrite (appended _).1 (appended _).2 sound.file
      | fsyncFails => exact sound.failRewrite (appended _).1 (appended _).2 sound.file
      | closeFails => exact sound.failRewrite (synced _).1 (synced _).2 (Or.inl rfl)
      | replaceFails => exact sound.failRewrite (synced _).1 (synced _).2 (Or.inr rfl)
      | replaced =>
          refine ⟨⟨below, nofun⟩, ?_, Or.inr rfl, pending.covered, ?_, rfl⟩
          · intro detached member
            rw [pending.alone] at member
            cases member
          · rw [pending.buffer, Option.getD_some]
            simp only [Disk.content, Disk.replace, Disk.fsync, Disk.content_settle, Disk.append,
              Disk.files_update, if_true, holds]
    · exact sound
  · exact sound

/-- Every turn keeps the log sound, when no rewrite starts beside the thread of an old
one. -/
theorem Sound.step (sound : Sound log) (step : AofStep)
    (alone : ∀ clock, step = .rewrite clock → log.detached = []) : Sound (log.step step) := by
  cases step with
  | write store commands => exact sound.write store commands
  | rewrite clock => exact sound.rewrite (alone clock rfl) clock
  | writer progress => exact sound.writer progress
  | resumeRewrite => exact sound.resumeRewrite
  | swap outcome => exact sound.swap outcome
  | cancelSwap => exact sound.cancelSwap
  | commit | syncAsync | acquire | fsyncStarts | fsyncEnds | resume | cancel =>
      exact sound.of_alike (alike_of_task log trivial)

end Rewrites

end AofTasks

end MiniCache
