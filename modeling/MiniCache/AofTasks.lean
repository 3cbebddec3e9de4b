import MiniCache.Server
import Mathlib.Logic.Function.Basic

/-!
# The tasks around the append-only file

The class `AOFLog` on a running event loop: the turns of clients that append, the tasks
in `commit` and `sync_async`, which share one lock and run `fsync` in worker threads, and
`rewrite`, which writes a snapshot in a worker thread and then swaps the files.  Below
them stands the disk: a file has a content, of which a prefix is durable.

The tasks take their turns in any order, and whatever can fail may fail.  History
variables, which no turn reads, keep the records appended and what the log began with.
-/

namespace MiniCache

abbrev Inode := Nat

/-- What was written to a file, and how long a prefix of it is durable. -/
structure DiskFile where
  content : Bytes
  durable : Nat
deriving DecidableEq

/-- The files, by inode, with the one at the path of the log, the one at the path of the
temporary file, and the next inode to be made. -/
structure Disk where
  files : Inode → DiskFile
  log : Inode
  tmp : Option Inode
  fresh : Inode

namespace Disk

/-- The disk when the log is opened, with the temporary file that a crash may have left. -/
def init (content : Bytes) (tmp : Option Bytes) : Disk where
  files := fun inode => if inode = 0 then ⟨content, 0⟩ else ⟨tmp.getD [], 0⟩
  log := 0
  tmp := tmp.map fun _ => 1
  fresh := 2

def update (disk : Disk) (inode : Inode) (change : DiskFile → DiskFile) : Disk :=
  { disk with files := Function.update disk.files inode (change (disk.files inode)) }

/-- A write at the end of a file. -/
def append (disk : Disk) (inode : Inode) (data : Bytes) : Disk :=
  disk.update inode fun file => { file with content := file.content ++ data }

/-- A write at the beginning of a file. -/
def overwrite (disk : Disk) (inode : Inode) (data : Bytes) : Disk :=
  disk.update inode fun file => { file with content := data ++ file.content.drop data.length }

/-- The end of an `fsync` that started when the file had some length. -/
def settle (disk : Disk) (inode : Inode) (length : Nat) : Disk :=
  disk.update inode fun file => { file with durable := max file.durable length }

/-- A whole `fsync`. -/
def fsync (disk : Disk) (inode : Inode) : Disk :=
  disk.settle inode (disk.files inode).content.length

/-- `open(tmp, "ab")`. -/
def openAppend (disk : Disk) : Inode × Disk :=
  match disk.tmp with
  | some inode => (inode, disk)
  | none =>
      (disk.fresh,
        { disk with
          files := Function.update disk.files disk.fresh ⟨[], 0⟩
          tmp := some disk.fresh
          fresh := disk.fresh + 1 })

/-- `open(tmp, "wb")`. -/
def openWrite (disk : Disk) : Inode × Disk :=
  let opened := disk.openAppend
  (opened.1, opened.2.update opened.1 fun _ => ⟨[], 0⟩)

/-- `tmp.unlink(missing_ok=True)`. -/
def unlink (disk : Disk) : Disk := { disk with tmp := none }

/-- `os.replace(tmp, self.path)`. -/
def replace (disk : Disk) (inode : Inode) : Disk := { disk with log := inode, tmp := none }

/-- The content of the file at the path of the log. -/
def content (disk : Disk) : Bytes := (disk.files disk.log).content

/-- What of it is durable. -/
def durableContent (disk : Disk) : Bytes := disk.content.take (disk.files disk.log).durable

end Disk

/-- The `fsync` policies. -/
inductive FsyncPolicy
  | always
  | everysec
  | no
deriving DecidableEq

/-- A worker thread that is to run `os.fsync` on a file, or `sync`, which finds the file
itself; then the call with the length of the file at its start; then its end. -/
inductive FsyncThread
  | queued (inode : Option Inode)
  | running (inode : Inode) (length : Nat)
  | ended (done : Bool)
deriving DecidableEq

/-- Where a task in `commit` or `sync_async` stands.  A cancelled one leaves its thread
behind. -/
inductive TaskState
  | waiting
  | running (upto : Nat) (thread : FsyncThread)
  | returned
  | raised
  | cancelled (thread : Option FsyncThread)
deriving DecidableEq

/-- A task in `commit`, with the sequence number it began with, or in `sync_async`. -/
structure AofTask where
  commit : Option Nat
  state : TaskState
deriving DecidableEq

/-- The worker thread that runs `_write_durable`. -/
inductive WriterThread
  | queued (payload : Bytes)
  | opened (inode : Inode) (payload : Bytes)
  | written (inode : Inode)
  | ended (done : Bool)
deriving DecidableEq

/-- A system call succeeds, or it fails after writing some bytes. -/
inductive Progress
  | done
  | fails (count : Nat)
deriving DecidableEq

/-- The next system call of `_write_durable`. -/
def WriterThread.step (disk : Disk) (progress : Progress) : WriterThread → WriterThread × Disk
  | .queued payload =>
      match progress with
      | .done => (.opened disk.openWrite.1 payload, disk.openWrite.2)
      | .fails _ => (.ended false, disk)
  | .opened inode payload =>
      match progress with
      | .done => (.written inode, disk.overwrite inode payload)
      | .fails count => (.ended false, disk.overwrite inode (payload.take count))
  | .written inode =>
      match progress with
      | .done => (.ended true, disk.fsync inode)
      | .fails _ => (.ended false, disk)
  | .ended done => (.ended done, disk)

/-- What a log file begins with: its first bytes, and how many of the records appended so
far they stand for. -/
structure Origin where
  head : Bytes
  covered : Nat

/-- Where the task in `rewrite` stands: in the worker thread or at the lock. -/
inductive Rewriting
  | idle
  | writing (origin : Origin) (thread : WriterThread)
  | waiting (origin : Origin)

/-- The system calls of `rewrite` under the lock, by the one that fails. -/
inductive SwapOutcome
  | openFails
  | writeFails (count : Nat)
  | fsyncFails
  | closeFails
  | replaceFails
  | replaced
deriving DecidableEq

/-- `AOFLog` with the store, the disk and the tasks. -/
structure AofTasks where
  fsync : FsyncPolicy
  store : Store
  disk : Disk
  file : Option Inode
  seq : Nat
  durableSeq : Nat
  dirty : Bool
  rewrites : Nat
  rewriteBuffer : Option (List Bytes)
  commitLock : Option Nat
  tasks : List AofTask
  rewriting : Rewriting
  detached : List WriterThread
  records : List Bytes
  origin : Origin

/-- `build_rewrite_commands`; listing the store sweeps it. -/
def buildRewriteCommands (clock : Clock) (store : Store) : List (List Arg) × Store :=
  let listed := store.snapshot clock.monotonic
  (listed.1.flatMap fun (key, value, ttl) =>
    let setCommand := [.ofString "SET", key, value]
    match ttl with
    | none => [setCommand]
    | some ttl => [setCommand, deadlineRecord key (deadlineMs clock.time ttl)],
    listed.2)

/-- The payload of a rewrite. -/
def rewritePayload (clock : Clock) (store : Store) : Bytes :=
  (buildRewriteCommands clock store).1.flatMap encodeCommand

/-- A turn of a task or of a worker thread. -/
inductive AofStep
  | write (store : Store) (commands : List (List Arg))
  | commit
  | syncAsync
  | acquire (task : Nat)
  | fsyncStarts (task : Nat)
  | fsyncEnds (task : Nat) (done : Bool)
  | resume (task : Nat)
  | cancel (task : Nat)
  | rewrite (clock : Clock)
  | writer (progress : Progress)
  | resumeRewrite
  | swap (outcome : SwapOutcome)
  | cancelSwap

namespace AofTasks

/-- `AOFLog.__init__` on a file that is there. -/
def init (fsync : FsyncPolicy) (store : Store) (content : Bytes) (tmp : Option Bytes) :
    AofTasks where
  fsync := fsync
  store := store
  disk := .init content tmp
  file := some 0
  seq := 0
  durableSeq := 0
  dirty := false
  rewrites := 0
  rewriteBuffer := none
  commitLock := none
  tasks := []
  rewriting := .idle
  detached := []
  records := []
  origin := ⟨content, 0⟩

/-- A turn of a client: a new state of the store, and `AOFLog.append` for some records.  On
a closed file the first of them raises. -/
def write (log : AofTasks) (store : Store) (commands : List (List Arg)) : AofTasks :=
  match log.file with
  | none => { log with store := store }
  | some inode =>
      let data := commands.map encodeCommand
      { log with
        store := store
        disk := log.disk.append inode data.flatten
        rewriteBuffer := log.rewriteBuffer.map (· ++ data)
        seq := log.seq + data.length
        dirty := log.dirty || !data.isEmpty
        records := log.records ++ data }

/-- `AOFLog.commit` up to the lock. -/
def commit (log : AofTasks) : AofTasks :=
  let state : TaskState :=
    if log.fsync ≠ .always ∨ log.seq ≤ log.durableSeq then .returned else .waiting
  { log with tasks := log.tasks ++ [⟨some log.seq, state⟩] }

/-- `AOFLog.sync_async` up to the lock. -/
def syncAsync (log : AofTasks) : AofTasks :=
  { log with tasks := log.tasks ++ [⟨none, .waiting⟩] }

def setState (log : AofTasks) (number : Nat) (task : AofTask) (state : TaskState) : AofTasks :=
  { log with tasks := log.tasks.set number { task with state := state } }

/-- A task gets the lock.  A commit looks again whether its records are durable, and hands
`fsync` to a thread otherwise; the descriptor of a closed file raises. -/
def acquire (log : AofTasks) (number : Nat) (task : AofTask) : AofTasks :=
  if log.commitLock = none ∧ task.state = .waiting then
    match task.commit with
    | none =>
        { log.setState number task (.running 0 (.queued none)) with commitLock := some number }
    | some seq =>
        if seq ≤ log.durableSeq then log.setState number task .returned
        else
          match log.file with
          | none => log.setState number task .raised
          | some inode =>
              { log.setState number task (.running log.seq (.queued (some inode))) with
                commitLock := some number }
  else log

/-- The thread of a task begins: `os.fsync`, or `AOFLog.sync`, which returns at once when
there is nothing to do. -/
def startThread (log : AofTasks) : Option Inode → FsyncThread × AofTasks
  | some inode => (.running inode (log.disk.files inode).content.length, log)
  | none =>
      match log.file with
      | some inode =>
          if log.dirty then
            (.running inode (log.disk.files inode).content.length, { log with dirty := false })
          else (.ended true, log)
      | none => (.ended true, log)

def fsyncStarts (log : AofTasks) (number : Nat) (task : AofTask) : AofTasks :=
  match task.state with
  | .running upto (.queued inode) =>
      let started := log.startThread inode
      started.2.setState number task (.running upto started.1)
  | .cancelled (some (.queued inode)) =>
      let started := log.startThread inode
      started.2.setState number task (.cancelled (some started.1))
  | _ => log

/-- `os.fsync` returns or raises. -/
def endThread (log : AofTasks) (inode : Inode) (length : Nat) (done : Bool) : AofTasks :=
  if done then { log with disk := log.disk.settle inode length } else log

def fsyncEnds (log : AofTasks) (number : Nat) (task : AofTask) (done : Bool) : AofTasks :=
  match task.state with
  | .running upto (.running inode length) =>
      (log.endThread inode length done).setState number task (.running upto (.ended done))
  | .cancelled (some (.running inode length)) =>
      (log.endThread inode length done).setState number task (.cancelled none)
  | _ => log

/-- The task gets the result of its thread and leaves the lock. -/
def resume (log : AofTasks) (number : Nat) (task : AofTask) : AofTasks :=
  match task.state with
  | .running upto (.ended done) =>
      let free := { log with commitLock := none }
      match task.commit, done with
      | some _, true => { free.setState number task .returned with durableSeq := upto }
      | none, true => free.setState number task .returned
      | _, false => free.setState number task .raised
  | _ => log

def cancel (log : AofTasks) (number : Nat) (task : AofTask) : AofTasks :=
  match task.state with
  | .waiting => log.setState number task (.cancelled none)
  | .running _ thread =>
      { log.setState number task (.cancelled (some thread)) with commitLock := none }
  | _ => log

/-- `AOFLog.rewrite` up to the worker thread. -/
def rewrite (log : AofTasks) (clock : Clock) : AofTasks :=
  if log.rewriteBuffer.isSome then log
  else
    let payload := rewritePayload clock log.store
    { log with
      store := (buildRewriteCommands clock log.store).2
      rewriteBuffer := some []
      rewriting := .writing ⟨payload, log.records.length⟩ (.queued payload) }

/-- How `rewrite` ends when something in it raises. -/
def failRewrite (log : AofTasks) : AofTasks :=
  { log with disk := log.disk.unlink, rewriteBuffer := none, rewriting := .idle }

def writer (log : AofTasks) (progress : Progress) : AofTasks :=
  match log.rewriting with
  | .writing origin thread =>
      let moved := thread.step log.disk progress
      { log with disk := moved.2, rewriting := .writing origin moved.1 }
  | _ => log

/-- `rewrite` gets the result of its thread. -/
def resumeRewrite (log : AofTasks) : AofTasks :=
  match log.rewriting with
  | .writing origin (.ended true) => { log with rewriting := .waiting origin }
  | .writing _ (.ended false) => log.failRewrite
  | _ => log

/-- `rewrite` under the lock.  Whatever becomes of `os.replace`, the file at the path is
opened again. -/
def swap (log : AofTasks) (outcome : SwapOutcome) : AofTasks :=
  match log.rewriting with
  | .waiting origin =>
      if log.commitLock = none then
        let tail := (log.rewriteBuffer.getD []).flatten
        let inode := log.disk.openAppend.1
        let opened := log.disk.openAppend.2
        let synced := (opened.append inode tail).fsync inode
        match outcome with
        | .openFails => log.failRewrite
        | .writeFails count =>
            { log with disk := opened.append inode (tail.take count) }.failRewrite
        | .fsyncFails => { log with disk := opened.append inode tail }.failRewrite
        | .closeFails => { log with disk := synced, file := none }.failRewrite
        | .replaceFails => { log with disk := synced, file := some synced.log }.failRewrite
        | .replaced =>
            { log with
              disk := synced.replace inode
              file := some inode
              durableSeq := log.seq
              dirty := false
              rewrites := log.rewrites + 1
              rewriteBuffer := none
              rewriting := .idle
              origin := origin }
      else log
  | _ => log

/-- `rewrite` is cancelled while it waits for the lock. -/
def cancelSwap (log : AofTasks) : AofTasks :=
  match log.rewriting with
  | .waiting _ => log.failRewrite
  | _ => log

/-- A turn of a task with some number. -/
def onTask (log : AofTasks) (number : Nat) (turn : AofTasks → Nat → AofTask → AofTasks) :
    AofTasks :=
  match log.tasks[number]? with
  | none => log
  | some task => turn log number task

def step (log : AofTasks) : AofStep → AofTasks
  | .write store commands => log.write store commands
  | .commit => log.commit
  | .syncAsync => log.syncAsync
  | .acquire number => log.onTask number acquire
  | .fsyncStarts number => log.onTask number fsyncStarts
  | .fsyncEnds number done => log.onTask number fun log number task =>
      log.fsyncEnds number task done
  | .resume number => log.onTask number resume
  | .cancel number => log.onTask number cancel
  | .rewrite clock => log.rewrite clock
  | .writer progress => log.writer progress
  | .resumeRewrite => log.resumeRewrite
  | .swap outcome => log.swap outcome
  | .cancelSwap => log.cancelSwap

def run (log : AofTasks) (steps : List AofStep) : AofTasks := steps.foldl step log

/-- `rewrite` is cancelled while it waits for its thread, which goes on alone. -/
def cancelRewrite (log : AofTasks) : AofTasks :=
  match log.rewriting with
  | .writing _ thread => { log with detached := log.detached ++ [thread] }.failRewrite
  | _ => log

def detachedWriter (log : AofTasks) (number : Nat) (progress : Progress) : AofTasks :=
  match log.detached[number]? with
  | none => log
  | some thread =>
      let moved := thread.step log.disk progress
      { log with disk := moved.2, detached := log.detached.set number moved.1 }

end AofTasks

/-- A turn; the cancellation of a rewrite whose thread runs; a system call of a thread that
was left behind so. -/
inductive RewriteStep
  | turn (step : AofStep)
  | cancelRewrite
  | detached (number : Nat) (progress : Progress)

namespace AofTasks

def rewriteStep (log : AofTasks) : RewriteStep → AofTasks
  | .turn step => log.step step
  | .cancelRewrite => log.cancelRewrite
  | .detached number progress => log.detachedWriter number progress

def runRewrite (log : AofTasks) (steps : List RewriteStep) : AofTasks :=
  steps.foldl rewriteStep log

end AofTasks

end MiniCache
