import MiniCache.AofTaskInvariants
import Mathlib.Data.List.Infix

/-!
# Group commit

Under the policy `always` a client waits in `commit` until its records are durable, and one
`fsync` serves all that wait.  What carries the proof is that the durable counter never gets
ahead of the file at the path: an `fsync` covers the records that were there when it began,
and only the task that has the lock moves the counter.
-/

namespace MiniCache

namespace AofTasks

variable {log other : AofTasks} {number later : Nat} {task : AofTask}

/-- The file of the log up to some record. -/
def upTo (log : AofTasks) (number : Nat) : Bytes :=
  log.origin.head ++ ((log.records.take number).drop log.origin.covered).flatten

/-- How long a prefix of the file of the log is durable. -/
def durable (log : AofTasks) : Nat := (log.disk.files log.disk.log).durable

/-- The first records are durable, in the snapshot at the head of the file or behind it. -/
def Flushed (log : AofTasks) (number : Nat) : Prop :=
  number = 0 ∨ (log.upTo number).length ≤ log.durable

theorem upTo_mono (le : number ≤ later) : log.upTo number <+: log.upTo later := by
  rw [upTo, upTo, List.prefix_append_right_inj, List.drop_take, List.drop_take]
  exact (List.take_prefix_take_left (Nat.sub_le_sub_right le _)).flatten

theorem Sound.upTo_length (sound : Sound log) : log.upTo log.records.length = log.disk.content := by
  rw [upTo, List.take_length, sound.content]

theorem Flushed.mono (flushed : log.Flushed later) (le : number ≤ later) :
    log.Flushed number := by
  rcases flushed with rfl | covers
  · exact Or.inl (Nat.le_zero.mp le)
  · exact Or.inr ((upTo_mono le).length_le.trans covers)

/-- Two logs with the same records up to some number, of which the second has at least as
much durable. -/
structure Longer (log other : AofTasks) (number : Nat) : Prop where
  origin : other.origin = log.origin
  records : other.records.take number = log.records.take number
  durable : log.durable ≤ other.durable

theorem Longer.upTo (longer : Longer log other later) (le : number ≤ later) :
    other.upTo number = log.upTo number := by
  have records := congrArg (List.take number) longer.records
  rw [List.take_take, List.take_take, Nat.min_eq_left le] at records
  rw [AofTasks.upTo, AofTasks.upTo, longer.origin, records]

theorem Flushed.longer (flushed : log.Flushed number) (longer : Longer log other later)
    (le : number ≤ later) : other.Flushed number := by
  refine flushed.imp_right fun covers => ?_
  rw [longer.upTo le]
  exact covers.trans longer.durable

/-- The thread of a commit is about to make the first records durable, or has done so. -/
def Covers (log : AofTasks) (upto : Nat) : FsyncThread → Prop
  | .queued inode => inode = some log.disk.log
  | .running inode length => inode = log.disk.log ∧ (log.upTo upto).length ≤ length
  | .ended true => log.Flushed upto
  | .ended false => True

/-- What a commit with some number has come to. -/
def CommitSound (log : AofTasks) (seq : Nat) : TaskState → Prop
  | .returned => seq ≤ log.durableSeq
  | .running upto thread =>
      seq ≤ upto ∧ log.durableSeq ≤ upto ∧ upto ≤ log.seq ∧ log.Covers upto thread
  | .waiting | .raised | .cancelled _ => True

/-- A task that runs has the lock; a commit stands where its number says. -/
structure TaskSound (log : AofTasks) (number : Nat) (task : AofTask) : Prop where
  lock : ∀ upto thread, task.state = .running upto thread → log.commitLock = some number
  began : ∀ seq ∈ task.commit, seq ≤ log.seq ∧ log.CommitSound seq task.state

/-- The durable counter is right, and so is every task. -/
structure Committed (log : AofTasks) : Prop where
  sound : Sound log
  alone : log.detached = []
  always : log.fsync = .always
  seq : log.seq = log.records.length
  bounded : log.durableSeq ≤ log.seq
  flushed : log.Flushed log.durableSeq
  tasks : ∀ number task, log.tasks[number]? = some task → log.TaskSound number task

theorem Covers.longer {upto : Nat} {thread : FsyncThread} (covers : log.Covers upto thread)
    (longer : Longer log other later) (le : upto ≤ later)
    (path : other.disk.log = log.disk.log) : other.Covers upto thread := by
  cases thread with
  | queued inode =>
      rw [Covers, path]
      exact covers
  | running inode length =>
      rw [Covers, path, longer.upTo le]
      exact covers
  | ended done =>
      cases done with
      | true => exact Flushed.longer covers longer le
      | false => trivial

/-- A task keeps its standing when the log grows and its lock and counter stay. -/
theorem TaskSound.longer (taskSound : log.TaskSound number task)
    (longer : Longer log other log.seq) (path : other.disk.log = log.disk.log)
    (seq : log.seq ≤ other.seq) (durableSeq : log.durableSeq ≤ other.durableSeq)
    (held : log.commitLock = some number →
      other.commitLock = some number ∧ other.durableSeq = log.durableSeq) :
    other.TaskSound number task := by
  refine ⟨fun upto thread runs => (held (taskSound.lock upto thread runs)).1, ?_⟩
  intro mine commits
  obtain ⟨began, stands⟩ := taskSound.began mine commits
  refine ⟨began.trans seq, ?_⟩
  cases state : task.state with
  | waiting | raised | cancelled => trivial
  | returned =>
      rw [state] at stands
      exact stands.trans durableSeq
  | running upto thread =>
      rw [state] at stands
      obtain ⟨mineLe, durableLe, le, covers⟩ := stands
      have same := (held (taskSound.lock upto thread state)).2
      exact ⟨mineLe, same ▸ durableLe, le.trans seq, covers.longer longer le path⟩

section Turns

variable {state : TaskState}

/-- A turn of one task. -/
structure TaskTurn (log other : AofTasks) (number : Nat) (task : AofTask) (state : TaskState) :
    Prop where
  alike : Alike log other
  fsync : other.fsync = log.fsync
  seq : other.seq = log.seq
  durable : log.durable ≤ other.durable
  tasks : other.tasks = log.tasks.set number { task with state := state }

theorem TaskTurn.longer (turn : TaskTurn log other number task state) (later : Nat) :
    Longer log other later :=
  ⟨turn.alike.origin, by rw [turn.alike.records], turn.durable⟩

theorem taskTurn_setState (log : AofTasks) (number : Nat) (task : AofTask) (state : TaskState) :
    TaskTurn log (log.setState number task state) number task state :=
  ⟨(Alike.refl log).setState number task state, rfl, rfl, Nat.le_refl _, rfl⟩

/-- The other tasks are as sound as before, if none of them had the lock. -/
theorem Committed.turn (committed : Committed log)
    (turn : TaskTurn log other number task state)
    (held : ∀ holder ≠ number, log.commitLock = some holder →
      other.commitLock = some holder ∧ other.durableSeq = log.durableSeq)
    (durableSeq : log.durableSeq ≤ other.durableSeq) (bounded : other.durableSeq ≤ log.seq)
    (flushed : other.Flushed other.durableSeq)
    (taskSound : other.TaskSound number { task with state := state }) : Committed other where
  sound := committed.sound.of_alike turn.alike
  alone := turn.alike.detached.trans committed.alone
  always := turn.fsync.trans committed.always
  seq := by rw [turn.seq, turn.alike.records, committed.seq]
  bounded := bounded.trans turn.seq.ge
  flushed := flushed
  tasks := by
    intro holder someone here
    rw [turn.tasks, List.getElem?_set] at here
    split_ifs at here with same inside
    · obtain rfl := same
      cases here
      exact taskSound
    · exact (committed.tasks holder someone here).longer (turn.longer _) turn.alike.disk.log
        turn.seq.ge durableSeq (held holder (Ne.symm same))

/-- A turn that leaves the counter alone. -/
theorem Committed.turn_of_same (committed : Committed log)
    (turn : TaskTurn log other number task state)
    (durableSeq : other.durableSeq = log.durableSeq)
    (held : ∀ holder ≠ number, log.commitLock = some holder → other.commitLock = some holder)
    (taskSound : other.TaskSound number { task with state := state }) : Committed other := by
  refine committed.turn turn (fun holder different here => ⟨held holder different here,
    durableSeq⟩) durableSeq.ge (durableSeq.le.trans committed.bounded) ?_ taskSound
  rw [durableSeq]
  exact committed.flushed.longer (turn.longer _) (Nat.le_refl _)

variable (log task) in
/-- Whoever neither runs nor has returned promises nothing. -/
theorem taskSound_of_quiet (number : Nat) {state : TaskState}
    (began : ∀ seq ∈ task.commit, seq ≤ log.seq)
    (quiet : state = .raised ∨ ∃ thread, state = .cancelled thread) :
    log.TaskSound number { task with state := state } := by
  obtain rfl | ⟨thread, rfl⟩ := quiet
  · exact ⟨nofun, fun seq commits => ⟨began seq commits, trivial⟩⟩
  · exact ⟨nofun, fun seq commits => ⟨began seq commits, trivial⟩⟩

theorem Committed.acquire (committed : Committed log) (found : log.tasks[number]? = some task) :
    Committed (log.acquire number task) := by
  have taskSound := committed.tasks number task found
  have began (seq : Nat) (commits : seq ∈ task.commit) : seq ≤ log.seq :=
    (taskSound.began seq commits).1
  unfold AofTasks.acquire
  split_ifs with free
  · obtain ⟨free, -⟩ := free
    have taken (state : TaskState) : TaskTurn log
        { log.setState number task state with commitLock := some number } number task state :=
      ⟨(taskTurn_setState log number task state).alike.setLock _ _ _, rfl, rfl, Nat.le_refl _,
        rfl⟩
    have noHolder {lock : Option Nat} (holder : Nat) (_ : holder ≠ number)
        (here : log.commitLock = some holder) : lock = some holder := by
      rw [free] at here
      cases here
    split
    · rename_i sync
      refine committed.turn_of_same (taken _) rfl noHolder ⟨fun _ _ _ => rfl, ?_⟩
      intro seq commits
      rw [sync] at commits
      cases commits
    · rename_i seq commit
      split_ifs with already
      · refine committed.turn_of_same (taskTurn_setState ..) rfl noHolder ⟨nofun, ?_⟩
        intro mine commits
        refine ⟨began mine commits, ?_⟩
        rw [commit] at commits
        cases commits
        exact already
      · split
        · exact committed.turn_of_same (taskTurn_setState ..) rfl noHolder
            (taskSound_of_quiet _ _ number began (Or.inl rfl))
        · rename_i inode opened
          have path : some inode = some log.disk.log := by
            rcases committed.sound.file with closed | here
            · rw [closed] at opened
              cases opened
            · exact opened.symm.trans here
          exact committed.turn_of_same (taken _) rfl noHolder ⟨fun _ _ _ => rfl,
            fun mine commits => ⟨began mine commits, began mine commits, committed.bounded,
              Nat.le_refl _, path⟩⟩
  · exact committed

/-- The file holds every record that was appended. -/
theorem Committed.upTo_le (committed : Committed log) {upto : Nat} (le : upto ≤ log.seq) :
    (log.upTo upto).length ≤ log.disk.content.length := by
  rw [← committed.sound.upTo_length, ← committed.seq]
  exact (upTo_mono le).length_le

theorem startThread_cases (log : AofTasks) (inode : Option Inode) :
    (log.startThread inode).2 = log ∨ (log.startThread inode).2 = { log with dirty := false } := by
  unfold startThread
  split
  · exact Or.inl rfl
  · split
    · split_ifs
      · exact Or.inr rfl
      · exact Or.inl rfl
    · exact Or.inl rfl

/-- What a task promises when its thread begins: the thread covers what is in the file. -/
theorem CommitSound.startThread (committed : Committed log) {seq upto : Nat}
    {inode : Option Inode} (stands : log.CommitSound seq (.running upto (.queued inode))) :
    log.CommitSound seq (.running upto (log.startThread inode).1) := by
  obtain ⟨mine, durableLe, le, path⟩ := stands
  obtain rfl : inode = some log.disk.log := path
  exact ⟨mine, durableLe, le, rfl, committed.upTo_le le⟩

theorem Committed.fsyncStarts (committed : Committed log)
    (found : log.tasks[number]? = some task) : Committed (log.fsyncStarts number task) := by
  have taskSound := committed.tasks number task found
  -- starting the thread may clear the dirty flag, which nothing here depends on
  have started (inode : Option Inode) (state : TaskState)
      (sound : log.TaskSound number { task with state := state }) :
      Committed ((log.startThread inode).2.setState number task state) := by
    rcases startThread_cases log inode with same | same
    · rw [same]
      exact committed.turn_of_same (taskTurn_setState ..) rfl (fun _ _ here => here)
        ⟨sound.lock, sound.began⟩
    · rw [same]
      refine committed.turn_of_same ⟨(taskTurn_setState log number task state).alike.setLock
        _ _ _, rfl, rfl, Nat.le_refl _, rfl⟩ rfl (fun _ _ here => here) ⟨sound.lock, ?_⟩
      intro seq commits
      obtain ⟨began, stands⟩ := sound.began seq commits
      refine ⟨began, ?_⟩
      cases state with
      | running upto thread =>
          obtain ⟨mine, durableLe, le, covers⟩ := stands
          exact ⟨mine, durableLe, le, covers.longer ⟨rfl, rfl, Nat.le_refl _⟩ le rfl⟩
      | waiting | returned | raised | cancelled => exact stands
  unfold AofTasks.fsyncStarts
  split
  · rename_i upto inode state
    refine started inode _ ⟨fun _ _ _ => taskSound.lock _ _ state, fun seq commits => ?_⟩
    obtain ⟨began, stands⟩ := taskSound.began seq commits
    rw [state] at stands
    exact ⟨began, stands.startThread committed⟩
  · exact started _ _ (taskSound_of_quiet _ _ number
      (fun seq commits => (taskSound.began seq commits).1) (Or.inr ⟨_, rfl⟩))
  · exact committed

/-- The end of an `fsync` leaves the log longer. -/
theorem endThread_turn (log : AofTasks) (inode : Inode) (length : Nat) (done : Bool)
    (number : Nat) (task : AofTask) (state : TaskState) :
    TaskTurn log ((log.endThread inode length done).setState number task state) number task
      state := by
  unfold endThread
  split_ifs
  · exact ⟨⟨log.disk.alike_settle inode length, rfl, rfl, rfl, rfl, rfl, rfl, rfl⟩, rfl, rfl,
      log.disk.durable_settle_le inode _ length, rfl⟩
  · exact taskTurn_setState ..

theorem endThread_frame (log : AofTasks) (inode : Inode) (length : Nat) (done : Bool) :
    (log.endThread inode length done).durableSeq = log.durableSeq ∧
      (log.endThread inode length done).commitLock = log.commitLock := by
  unfold endThread
  split_ifs <;> exact ⟨rfl, rfl⟩

theorem le_durable_endThread (log : AofTasks) (length : Nat) :
    length ≤ (log.endThread log.disk.log length true).durable := by
  rw [endThread, if_pos rfl]
  exact log.disk.length_le_durable_settle log.disk.log length

theorem Committed.fsyncEnds (committed : Committed log)
    (found : log.tasks[number]? = some task) (done : Bool) :
    Committed (log.fsyncEnds number task done) := by
  have taskSound := committed.tasks number task found
  unfold AofTasks.fsyncEnds
  split
  · rename_i upto inode length state
    have turn := endThread_turn log inode length done number task (.running upto (.ended done))
    obtain ⟨durableSeq, lock⟩ := endThread_frame log inode length done
    refine committed.turn_of_same turn durableSeq (fun _ _ here => lock.trans here)
      ⟨fun _ _ _ => lock.trans (taskSound.lock _ _ state), fun seq commits => ?_⟩
    obtain ⟨began, stands⟩ := taskSound.began seq commits
    rw [state] at stands
    obtain ⟨mine, durableLe, le, rfl, covers⟩ := stands
    refine ⟨began.trans turn.seq.ge, mine, durableSeq.le.trans durableLe, le.trans turn.seq.ge, ?_⟩
    cases done with
    | false => trivial
    | true =>
        refine Or.inr ?_
        rw [(turn.longer upto).upTo (Nat.le_refl _)]
        exact covers.trans (le_durable_endThread log length)
  · rename_i inode length state
    obtain ⟨durableSeq, lock⟩ := endThread_frame log inode length done
    have turn := endThread_turn log inode length done number task (.cancelled none)
    exact committed.turn_of_same turn durableSeq (fun _ _ here => lock.trans here)
      (taskSound_of_quiet _ _ number
        (fun seq commits => (taskSound.began seq commits).1.trans turn.seq.ge) (Or.inr ⟨_, rfl⟩))
  · exact committed

theorem Committed.resume (committed : Committed log)
    (found : log.tasks[number]? = some task) : Committed (log.resume number task) := by
  have taskSound := committed.tasks number task found
  have began (seq : Nat) (commits : seq ∈ task.commit) : seq ≤ log.seq :=
    (taskSound.began seq commits).1
  unfold AofTasks.resume
  split
  · rename_i upto done running
    have noOther {holder : Nat} (different : holder ≠ number)
        (here : log.commitLock = some holder) : False := by
      rw [taskSound.lock _ _ running] at here
      exact different (Option.some.inj here).symm
    have freed (durableSeq : Nat) (state : TaskState) : TaskTurn log
        { { log with commitLock := none }.setState number task state with
          durableSeq := durableSeq } number task state :=
      ⟨(taskTurn_setState log number task state).alike.setLock _ _ _, rfl, rfl, Nat.le_refl _,
        rfl⟩
    split
    · rename_i seq commit
      obtain ⟨-, stands⟩ := taskSound.began seq commit
      rw [running] at stands
      obtain ⟨mine, durableLe, le, covered⟩ := stands
      refine committed.turn (freed upto .returned)
        (fun _ different here => (noOther different here).elim) durableLe le
        (Flushed.longer covered ((freed upto .returned).longer upto) (Nat.le_refl _))
        ⟨nofun, fun other commits => ⟨began other commits, ?_⟩⟩
      rw [commit] at commits
      cases commits
      exact mine
    · rename_i sync
      refine committed.turn_of_same (freed log.durableSeq .returned) rfl
        (fun _ different here => (noOther different here).elim) ⟨nofun, ?_⟩
      intro seq commits
      rw [sync] at commits
      cases commits
    · exact committed.turn_of_same (freed log.durableSeq .raised) rfl
        (fun _ different here => (noOther different here).elim)
        (taskSound_of_quiet _ _ number began (Or.inl rfl))
  · exact committed

theorem Committed.cancel (committed : Committed log)
    (found : log.tasks[number]? = some task) : Committed (log.cancel number task) := by
  have taskSound := committed.tasks number task found
  have began (seq : Nat) (commits : seq ∈ task.commit) : seq ≤ log.seq :=
    (taskSound.began seq commits).1
  unfold AofTasks.cancel
  split
  · exact committed.turn_of_same (taskTurn_setState ..) rfl (fun _ _ here => here)
      (taskSound_of_quiet _ _ number began (Or.inr ⟨_, rfl⟩))
  · rename_i upto thread running
    refine committed.turn_of_same ⟨(taskTurn_setState log number task _).alike.setLock
      _ _ none, rfl, rfl, Nat.le_refl _, rfl⟩ rfl ?_
      (taskSound_of_quiet _ _ number began (Or.inr ⟨_, rfl⟩))
    intro holder different here
    rw [taskSound.lock _ _ running] at here
    exact absurd (Option.some.inj here).symm different
  · exact committed

/-- A new task, which does not run. -/
theorem Committed.spawn (committed : Committed log)
    (taskSound : log.TaskSound log.tasks.length task) :
    Committed { log with tasks := log.tasks ++ [task] } where
  sound := committed.sound.of_alike ⟨.refl log.disk, rfl, rfl, rfl, rfl, rfl, rfl, rfl⟩
  alone := committed.alone
  always := committed.always
  seq := committed.seq
  bounded := committed.bounded
  flushed := committed.flushed
  tasks := by
    have same : Longer log { log with tasks := log.tasks ++ [task] } log.seq :=
      ⟨rfl, rfl, Nat.le_refl _⟩
    have keeps {number : Nat} {someone : AofTask} (sound : log.TaskSound number someone) :=
      sound.longer same rfl (Nat.le_refl _) (Nat.le_refl _) fun here => ⟨here, rfl⟩
    intro number someone here
    rcases Nat.lt_trichotomy number log.tasks.length with old | rfl | beyond
    · rw [List.getElem?_append_left old] at here
      exact keeps (committed.tasks number someone here)
    · rw [List.getElem?_concat_length] at here
      cases here
      exact keeps taskSound
    · rw [List.getElem?_eq_none (by rw [List.length_append]; exact beyond)] at here
      cases here

theorem Committed.commit (committed : Committed log) : Committed log.commit := by
  refine committed.spawn ?_
  simp only [committed.always, ne_eq, not_true_eq_false, false_or]
  split_ifs with already
  · refine ⟨nofun, ?_⟩
    rintro seq ⟨⟩
    exact ⟨Nat.le_refl _, already⟩
  · refine ⟨nofun, ?_⟩
    rintro seq ⟨⟩
    exact ⟨Nat.le_refl _, trivial⟩

theorem Committed.syncAsync (committed : Committed log) : Committed log.syncAsync :=
  committed.spawn ⟨nofun, nofun⟩

end Turns

section Rewrites

/-- What happens beside the file of the log is no matter to the tasks. -/
theorem Committed.aside (committed : Committed log) {store : Store} {disk : Disk}
    {file : Option Inode} {buffer : Option (List Bytes)} {rewriting : Rewriting}
    (beside : log.disk.Beside disk)
    (sound : Sound { log with
      store := store
      disk := disk
      file := file
      rewriteBuffer := buffer
      rewriting := rewriting }) :
    Committed { log with
      store := store
      disk := disk
      file := file
      rewriteBuffer := buffer
      rewriting := rewriting } := by
  have durable : (disk.files disk.log).durable = log.durable := by
    rw [beside.log, beside.file, AofTasks.durable]
  have longer (later : Nat) : Longer log { log with
      store := store
      disk := disk
      file := file
      rewriteBuffer := buffer
      rewriting := rewriting } later :=
    ⟨rfl, rfl, durable.ge⟩
  exact {
    sound := sound
    alone := committed.alone
    always := committed.always
    seq := committed.seq
    bounded := committed.bounded
    flushed := committed.flushed.longer (longer _) (Nat.le_refl _)
    tasks := fun number task here => (committed.tasks number task here).longer (longer _)
      beside.log (Nat.le_refl _) (Nat.le_refl _) fun holds => ⟨holds, rfl⟩ }

theorem Committed.write (committed : Committed log) (store : Store)
    (commands : List (List Arg)) : Committed (log.write store commands) := by
  have sound := committed.sound.write store commands
  unfold AofTasks.write at sound ⊢
  split at sound
  · exact committed.aside (.refl log.disk) sound
  · rename_i inode opened
    obtain rfl : inode = log.disk.log := by
      rcases committed.sound.file with closed | here
      · rw [closed] at opened
        cases opened
      · exact Option.some.inj (opened.symm.trans here)
    generalize commands.map encodeCommand = data at sound ⊢
    have longer : Longer log { log with
        store := store
        disk := log.disk.append log.disk.log data.flatten
        rewriteBuffer := log.rewriteBuffer.map (· ++ data)
        seq := log.seq + data.length
        dirty := log.dirty || !data.isEmpty
        records := log.records ++ data } log.seq := by
      refine ⟨rfl, ?_, (log.disk.durable_append data.flatten).ge⟩
      exact List.take_append_of_le_length committed.seq.le
    exact {
      sound := sound
      alone := committed.alone
      always := committed.always
      seq := by rw [List.length_append, committed.seq]
      bounded := committed.bounded.trans (Nat.le_add_right _ _)
      flushed := committed.flushed.longer longer committed.bounded
      tasks := fun number task here => (committed.tasks number task here).longer longer rfl
        (Nat.le_add_right _ _) (Nat.le_refl _) fun holds => ⟨holds, rfl⟩ }

theorem Committed.rewrite (committed : Committed log) (clock : Clock) :
    Committed (log.rewrite clock) := by
  have sound := committed.sound.rewrite committed.alone clock
  unfold AofTasks.rewrite at sound ⊢
  split_ifs at sound ⊢
  · exact committed
  · exact committed.aside (.refl log.disk) sound

theorem Committed.writer (committed : Committed log) (progress : Progress) :
    Committed (log.writer progress) := by
  have sound := committed.sound.writer progress
  have prepared := committed.sound.prepared
  unfold AofTasks.writer at sound ⊢
  split at sound
  · rename_i origin thread rewriting
    rw [rewriting] at prepared
    exact committed.aside (prepared.2.1.step committed.sound.disk progress).2.1 sound
  · exact committed

theorem Committed.failRewrite (committed : Committed log) : Committed log.failRewrite :=
  committed.aside ⟨rfl, Nat.le_refl _, rfl⟩
    (committed.sound.failRewrite committed.sound.disk (.refl log.disk) committed.sound.file)

theorem Committed.resumeRewrite (committed : Committed log) : Committed log.resumeRewrite := by
  have sound := committed.sound.resumeRewrite
  unfold AofTasks.resumeRewrite at sound ⊢
  split at sound
  · exact committed.aside (.refl log.disk) sound
  · exact committed.failRewrite
  · exact committed

theorem Committed.cancelSwap (committed : Committed log) : Committed log.cancelSwap := by
  unfold AofTasks.cancelSwap
  split
  · exact committed.failRewrite
  · exact committed

/-- A file that replaces the log after its `fsync` is durable. -/
theorem content_le_durable_replace (disk : Disk) (inode : Inode) :
    ((disk.fsync inode).replace inode).content.length ≤
      (((disk.fsync inode).replace inode).files ((disk.fsync inode).replace inode).log).durable :=
  disk.length_le_durable_fsync inode

/-- Nothing runs while the files are swapped, and then every record is durable. -/
theorem Committed.swap (committed : Committed log) (outcome : SwapOutcome) :
    Committed (log.swap outcome) := by
  have sound := committed.sound.swap outcome
  unfold AofTasks.swap at sound ⊢
  split at sound
  · rename_i origin rewriting
    obtain ⟨-, opened, -, -, apart⟩ := committed.sound.disk.openAppend
    have appended (data : Bytes) :
        log.disk.Beside (log.disk.openAppend.2.append log.disk.openAppend.1 data) :=
      opened.trans (Disk.beside_append (opened.log ▸ apart) data)
    have synced (data : Bytes) : log.disk.Beside
        ((log.disk.openAppend.2.append log.disk.openAppend.1 data).fsync
          log.disk.openAppend.1) :=
      (appended data).trans (Disk.beside_settle (opened.log ▸ apart) _)
    split_ifs at sound ⊢ with free
    · cases outcome with
      | openFails => exact committed.failRewrite
      | writeFails count => exact committed.aside (appended _).unlink sound
      | fsyncFails => exact committed.aside (appended _).unlink sound
      | closeFails => exact committed.aside (synced _).unlink sound
      | replaceFails => exact committed.aside (synced _).unlink sound
      | replaced =>
          refine ⟨sound, committed.alone, committed.always, committed.seq, Nat.le_refl _, ?_, ?_⟩
          · refine Or.inr ?_
            have whole := sound.upTo_length
            rw [← committed.seq] at whole
            rw [whole]
            exact content_le_durable_replace _ _
          · intro number task here
            obtain ⟨lock, began⟩ := committed.tasks number task here
            have idle (upto : Nat) (thread : FsyncThread)
                (runs : task.state = .running upto thread) : False := by
              have holds := lock upto thread runs
              rw [free] at holds
              cases holds
            refine ⟨fun upto thread runs => (idle upto thread runs).elim, fun seq commits => ?_⟩
            refine ⟨(began seq commits).1, ?_⟩
            cases state : task.state with
            | running upto thread => exact (idle upto thread state).elim
            | returned => exact (began seq commits).1
            | waiting | raised | cancelled => trivial
    · exact committed
  · exact committed

end Rewrites

/-- Every turn keeps the durable counter right. -/
theorem Committed.step (committed : Committed log) (step : AofStep) :
    Committed (log.step step) := by
  have onTask {turn : AofTasks → Nat → AofTask → AofTasks} (number : Nat)
      (keeps : ∀ task, log.tasks[number]? = some task → Committed (turn log number task)) :
      Committed (log.onTask number turn) := by
    unfold AofTasks.onTask
    split
    · exact committed
    · rename_i task found
      exact keeps task found
  cases step with
  | write store commands => exact committed.write store commands
  | commit => exact committed.commit
  | syncAsync => exact committed.syncAsync
  | acquire number => exact onTask number fun _ found => committed.acquire found
  | fsyncStarts number => exact onTask number fun _ found => committed.fsyncStarts found
  | fsyncEnds number done =>
      exact @onTask (fun log number task => log.fsyncEnds number task done) number
        fun _ found => committed.fsyncEnds found done
  | resume number => exact onTask number fun _ found => committed.resume found
  | cancel number => exact onTask number fun _ found => committed.cancel found
  | rewrite clock => exact committed.rewrite clock
  | writer progress => exact committed.writer progress
  | resumeRewrite => exact committed.resumeRewrite
  | swap outcome => exact committed.swap outcome
  | cancelSwap => exact committed.cancelSwap

theorem Committed.run (committed : Committed log) (steps : List AofStep) :
    Committed (log.run steps) := by
  induction steps generalizing log with
  | nil => exact committed
  | cons step steps ih => exact ih (committed.step step)

section Origins

/-- The origin that a rewrite has in hand. -/
def planned : Rewriting → Option Origin
  | .idle => none
  | .writing origin _ | .waiting origin => some origin

/-- What a rewrite takes as the origin of its file when it starts. -/
def snapshotOrigin (clock : Clock) (log : AofTasks) : Origin :=
  ⟨rewritePayload clock log.store, log.records.length⟩

/-- A turn leaves the origins alone, or the file of a rewrite replaces the log, or a rewrite
starts. -/
theorem step_origin (log : AofTasks) (step : AofStep) :
    ((log.step step).origin = log.origin ∨
      planned log.rewriting = some (log.step step).origin) ∧
    ∀ origin, planned (log.step step).rewriting = some origin →
      planned log.rewriting = some origin ∨
        ∃ clock, step = .rewrite clock ∧ origin = snapshotOrigin clock log := by
  have same {other : AofTasks} (kept : other.origin = log.origin)
      (rewriting : planned other.rewriting = planned log.rewriting ∨ other.rewriting = .idle) :
      (other.origin = log.origin ∨ planned log.rewriting = some other.origin) ∧
        ∀ origin, planned other.rewriting = some origin →
          planned log.rewriting = some origin ∨
            ∃ clock, step = .rewrite clock ∧ origin = snapshotOrigin clock log := by
    refine ⟨Or.inl kept, fun origin plans => ?_⟩
    rcases rewriting with rewriting | idle
    · exact Or.inl (rewriting ▸ plans)
    · rw [idle] at plans
      cases plans
  have task (atLock : step.AtLock) := alike_of_task log atLock
  cases step with
  | commit | syncAsync | acquire | fsyncStarts | fsyncEnds | resume | cancel =>
      have alike := task trivial
      exact same alike.origin (Or.inl (congrArg planned alike.rewriting))
  | write store commands =>
      simp only [AofTasks.step, AofTasks.write]
      split <;> exact same rfl (Or.inl rfl)
  | rewrite clock =>
      simp only [AofTasks.step, AofTasks.rewrite]
      split_ifs
      · exact same rfl (Or.inl rfl)
      · refine ⟨Or.inl rfl, ?_⟩
        rintro origin ⟨⟩
        exact Or.inr ⟨clock, rfl, rfl⟩
  | writer progress =>
      simp only [AofTasks.step, AofTasks.writer]
      split
      · rename_i origin thread rewriting
        exact same rfl (Or.inl (by rw [rewriting]; rfl))
      · exact same rfl (Or.inl rfl)
  | resumeRewrite =>
      simp only [AofTasks.step, AofTasks.resumeRewrite]
      split
      · rename_i origin rewriting
        exact same rfl (Or.inl (by rw [rewriting]; rfl))
      · exact same rfl (Or.inr rfl)
      · exact same rfl (Or.inl rfl)
  | cancelSwap =>
      simp only [AofTasks.step, AofTasks.cancelSwap]
      split
      · exact same rfl (Or.inr rfl)
      · exact same rfl (Or.inl rfl)
  | swap outcome =>
      rw [show log.step (.swap outcome) = log.swap outcome from rfl]
      unfold AofTasks.swap
      split
      · rename_i origin rewriting
        by_cases free : log.commitLock = none
        · rw [if_pos free]
          cases outcome with
          | replaced => exact ⟨Or.inr (by rw [rewriting]; rfl), by simp [planned]⟩
          | openFails | writeFails | fsyncFails | closeFails | replaceFails =>
              exact same rfl (Or.inr rfl)
        · rw [if_neg free]
          exact same rfl (Or.inl rfl)
      · exact same rfl (Or.inl rfl)

/-- An origin is the one the log began with, or a rewrite that started in the run took it. -/
def Arises (start : AofTasks) (steps : List AofStep) (origin : Origin) : Prop :=
  origin = start.origin ∨ ∃ before clock after,
    steps = before ++ .rewrite clock :: after ∧ origin = snapshotOrigin clock (start.run before)

theorem Arises.append {start : AofTasks} {steps : List AofStep} {origin : Origin}
    (arises : Arises start steps origin) (step : AofStep) :
    Arises start (steps ++ [step]) origin := by
  refine arises.imp_right ?_
  rintro ⟨before, clock, after, rfl, same⟩
  exact ⟨before, clock, after ++ [step], by rw [List.append_assoc, List.cons_append], same⟩

end Origins

end AofTasks

end MiniCache
