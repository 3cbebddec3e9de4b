import MiniCache.GroupCommit
import MiniCache.AofCrash
import MiniCache.RewriteReplay

/-!
# Recovery after a crash

A primary whose clients wait in `commit`, with `fsync` threads and rewrites that may fail or
be cancelled at every turn.  A crash leaves of the log any part that holds what is durable.
For commands without lifetimes, a restart then finds the contents that the store had after
some first turns of the run, and every turn whose commit has returned is among them.
-/

namespace MiniCache

open ExpiringMap (Effect Action applyAll)

section Undated

/-- A map without deadlines. -/
def Undated (plain : PlainMap) : Prop := ∀ key, ∀ content ∈ plain key, content.2 = none

/-- An effect that gives no deadline. -/
def Timeless (effect : Effect Arg Arg Time) : Prop := effect.limit = none

instance (effect : Effect Arg Arg Time) : Decidable (Timeless effect) :=
  inferInstanceAs (Decidable (_ = _))

variable {plain : PlainMap} {effects : List (Effect Arg Arg Time)} {clock : Clock}
  {store : Store} {now later : Time}

theorem Undated.live (undated : Undated plain) (now : Time) (key : Arg) :
    ExpiringMap.live now (plain key) = plain key := by
  cases held : plain key with
  | none => rfl
  | some content =>
      obtain ⟨value, deadline⟩ := content
      obtain rfl : deadline = none := undated key _ held
      exact ExpiringMap.live_some_none now value

theorem Undated.mapDeadline (undated : Undated plain) (moved : Time → Time) (key : Arg) :
    ExpiringMap.mapDeadline moved (plain key) = plain key := by
  cases held : plain key with
  | none => rfl
  | some content =>
      obtain ⟨value, deadline⟩ := content
      obtain rfl : deadline = none := undated key _ held
      rfl

theorem Undated.apply (undated : Undated plain) {effect : Effect Arg Arg Time}
    (timeless : Timeless effect) (now : Time) : Undated (effect.apply now plain) := by
  have keeps : effect.Keeps fun _ content => content.2 = none := by
    cases effect with
    | flush => trivial
    | act key action =>
        cases action with
        | write value deadline => exact timeless
        | clear => trivial
        | modify update => exact ⟨fun _ _ none _ _ => none, fun _ _ => rfl⟩
        | setDeadline deadline => cases timeless
        | persist => exact fun _ _ => rfl
  exact @ExpiringMap.holds_applyAll _ _ _ _ now _ _ [effect] plain undated
    (by simpa using keeps)

/-- Without deadlines it does not matter when an effect takes place. -/
theorem Undated.apply_at (undated : Undated plain) (effect : Effect Arg Arg Time)
    (now later : Time) : effect.apply now plain = effect.apply later plain := by
  funext key
  unfold Effect.apply
  cases effect.actionAt key with
  | none => rfl
  | some action =>
      cases action <;> simp only [Action.apply, undated.live]

theorem Undated.applyAll (undated : Undated plain)
    (timeless : ∀ effect ∈ effects, Timeless effect) (now : Time) :
    Undated (applyAll now effects plain) := by
  induction effects generalizing plain with
  | nil => exact undated
  | cons effect rest ih =>
      rw [List.forall_mem_cons] at timeless
      exact ih (undated.apply timeless.1 now) timeless.2

theorem Undated.applyAll_at (undated : Undated plain)
    (timeless : ∀ effect ∈ effects, Timeless effect) (now later : Time) :
    ExpiringMap.applyAll now effects plain = ExpiringMap.applyAll later effects plain := by
  induction effects generalizing plain with
  | nil => rfl
  | cons effect rest ih =>
      rw [List.forall_mem_cons] at timeless
      rw [ExpiringMap.applyAll_cons, ExpiringMap.applyAll_cons, undated.apply_at effect now later]
      exact ih (undated.apply timeless.1 later) timeless.2

/-- Effects that correspond are the same where they give no deadlines. -/
theorem eq_of_tracks {copies : List (Effect Arg Arg Time)}
    (tracks : List.Forall₂ (ExpiringMap.EffectTracks Near) effects copies)
    (timeless : ∀ effect ∈ copies, Timeless effect) : effects = copies := by
  induction tracks with
  | nil => rfl
  | cons one _ ih =>
      rw [List.forall_mem_cons] at timeless
      rw [ih timeless.2]
      congr 1
      cases one with
      | flush => rfl
      | act key actions =>
          cases actions with
          | write value near =>
              have given := timeless.1
              cases near with
              | none => rfl
              | some near => cases given
          | setDeadline near => cases timeless.1
          | clear | modify | persist => rfl

/-- At every reading of the clocks, a store without deadlines is its own map. -/
theorem represents_of_undated (unlimited : store.maxmemory = 0) (drained : store.evicted = [])
    (undated : Undated store.plain) (clock : Clock) : Represents clock store store.plain := by
  refine ⟨unlimited, drained, fun key => ?_⟩
  rw [undated.mapDeadline]
  exact .refl _ _

theorem plain_of_represents (represents : Represents clock store plain)
    (undated : Undated plain) : store.plain = plain := by
  funext key
  have held := represents.holds key
  rw [undated.mapDeadline] at held
  exact held.eq_of_live (undated.live _ key)

theorem plain_of_observes {other : Store} (observes : Observes now store other)
    (undated : Undated store.plain) : other.plain = store.plain :=
  funext fun key => (observes.cells key).eq_of_live (undated.live _ key)

end Undated

/-- A primary with the tasks around its log.  Its own copy of the log only grows; the file is
what the tasks make of it. -/
structure Node where
  server : Server
  log : AofTasks

/-- A turn of the event loop or of a worker thread. -/
inductive NodeStep
  | serve (clock : Clock) (step : ServerStep)
  | task (step : AofStep)

/-- A turn that comes to `AOFLog.commit`. -/
def ServerStep.Commits (clock : Clock) (server : Server) : ServerStep → Prop
  | .command authed request => authed = true ∧ isWriteCommand (serverName request) = true ∧
      Accepted (dispatch clock server.store (received request)).1
  | .sweep => False

instance (clock : Clock) (server : Server) (step : ServerStep) :
    Decidable (step.Commits clock server) :=
  match step with
  | .command _ _ => inferInstanceAs (Decidable (_ ∧ _ ∧ _))
  | .sweep => inferInstanceAs (Decidable False)

namespace Node

/-- `AOFLog.append` for the records of the turn, and `AOFLog.commit`. -/
def serve (node : Node) (clock : Clock) (step : ServerStep) : Node :=
  let server := node.server.step clock step
  let log := node.log.write server.store (step.records clock node.server)
  ⟨server, if step.Commits clock node.server then log.commit else log⟩

def step (node : Node) : NodeStep → Node
  | .serve clock step => node.serve clock step
  | .task step =>
      let log := node.log.step step
      ⟨{ node.server with store := log.store }, log⟩

def run (node : Node) (steps : List NodeStep) : Node := steps.foldl step node

/-- A primary that has been started on a new log under the policy `always`. -/
def start (server : Server) (tmp : Option Bytes) : Node :=
  ⟨server, .init .always server.store [] tmp⟩

end Node

/-- A client's command gives no deadline, only clients append and commit, and the old file of
a rewrite can be closed. -/
def NodeStep.Regular (node : Node) : NodeStep → Prop
  | .serve clock step => step.Client ∧ ∀ effect ∈ step.effects clock node.server, Timeless effect
  | .task (.write _ _) | .task .commit | .task (.swap .closeFails) => False
  | .task _ => True

def Regular : Node → List NodeStep → Prop
  | _, [] => True
  | node, step :: rest => step.Regular node ∧ Regular (node.step step) rest

/-- What the records of a turn tell, record by record. -/
def NodeStep.tells (node : Node) : NodeStep → List (List (Effect Arg Arg Time))
  | .serve clock step =>
      (step.records clock node.server).map fun _ => step.effects clock node.server
  | .task _ => []

/-- What the records of a run tell. -/
def Node.tells : Node → List NodeStep → List (List (Effect Arg Arg Time))
  | _, [] => []
  | node, step :: rest => step.tells node ++ (node.step step).tells rest

section Runs

variable {node start : Node} {steps rest : List NodeStep}

theorem Node.run_append (node : Node) (steps rest : List NodeStep) :
    node.run (steps ++ rest) = (node.run steps).run rest :=
  List.foldl_append

theorem regular_append : Regular node (steps ++ rest) ↔
    Regular node steps ∧ Regular (node.run steps) rest := by
  induction steps generalizing node with
  | nil => exact ⟨fun regular => ⟨trivial, regular⟩, fun regular => regular.2⟩
  | cons step more ih =>
      simp only [List.cons_append, Regular, ih, and_assoc]
      rfl

theorem tells_append (node : Node) (steps rest : List NodeStep) :
    node.tells (steps ++ rest) = node.tells steps ++ (node.run steps).tells rest := by
  induction steps generalizing node with
  | nil => rfl
  | cons step more ih =>
      simp only [List.cons_append, Node.tells, ih, List.append_assoc]
      rfl

end Runs

namespace AofTasks

variable {log : AofTasks}

/-- The tasks after a turn at the lock: one has moved, or there is a new one. -/
inductive Moved (log other : AofTasks) : Prop
  | still : other.tasks = log.tasks → Moved log other
  | turned {number : Nat} {task : AofTask} (state : TaskState) :
      log.tasks[number]? = some task →
        other.tasks = log.tasks.set number { task with state := state } → Moved log other
  | spawned (task : AofTask) : other.tasks = log.tasks ++ [task] → Moved log other

theorem Moved.kept {other : AofTasks} (moved : Moved log other) {number : Nat} {task : AofTask}
    (here : log.tasks[number]? = some task) :
    ∃ state, other.tasks[number]? = some { task with state := state } := by
  cases moved with
  | still tasks => exact ⟨task.state, by rw [tasks, here]⟩
  | spawned someone tasks =>
      refine ⟨task.state, ?_⟩
      obtain ⟨inside, -⟩ := List.getElem?_eq_some_iff.mp here
      rw [tasks, List.getElem?_append_left inside, here]
  | @turned holder someone state found tasks =>
      rw [tasks, List.getElem?_set]
      split_ifs with self inside
      · obtain rfl := self
        obtain rfl := Option.some.inj (found.symm.trans here)
        exact ⟨state, rfl⟩
      · obtain rfl := self
        rw [List.getElem?_eq_none (Nat.le_of_not_lt inside)] at here
        cases here
      · exact ⟨task.state, by rw [here]⟩

/-- At the lock only the tasks move, and what is durable stays so. -/
structure LockFrame (log other : AofTasks) : Prop where
  store : other.store = log.store
  durable : log.durable ≤ other.durable
  moved : Moved log other

theorem atLock_frame (log : AofTasks) {step : AofStep} (atLock : step.AtLock) :
    LockFrame log (log.step step) := by
  have onTask {turn : AofTasks → Nat → AofTask → AofTasks} {number : Nat}
      (turns : ∀ task, (turn log number task).store = log.store ∧
        log.durable ≤ (turn log number task).durable ∧
        ((turn log number task).tasks = log.tasks ∨ ∃ state,
          (turn log number task).tasks = log.tasks.set number { task with state := state })) :
      LockFrame log (log.onTask number turn) := by
    unfold AofTasks.onTask
    split
    · exact ⟨rfl, Nat.le_refl _, .still rfl⟩
    · rename_i task found
      obtain ⟨store, durable, kept | ⟨state, tasks⟩⟩ := turns task
      · exact ⟨store, durable, .still kept⟩
      · exact ⟨store, durable, .turned state found tasks⟩
  cases step with
  | commit => exact ⟨rfl, Nat.le_refl _, .spawned _ rfl⟩
  | syncAsync => exact ⟨rfl, Nat.le_refl _, .spawned _ rfl⟩
  | acquire number =>
      refine onTask fun task => ?_
      unfold AofTasks.acquire
      split_ifs
      · split
        · exact ⟨rfl, Nat.le_refl _, Or.inr ⟨_, rfl⟩⟩
        · split_ifs
          · exact ⟨rfl, Nat.le_refl _, Or.inr ⟨_, rfl⟩⟩
          · split <;> exact ⟨rfl, Nat.le_refl _, Or.inr ⟨_, rfl⟩⟩
      · exact ⟨rfl, Nat.le_refl _, Or.inl rfl⟩
  | fsyncStarts number =>
      refine onTask fun task => ?_
      have started (inode : Option Inode) : (log.startThread inode).2.store = log.store ∧
          log.durable ≤ (log.startThread inode).2.durable ∧
          (log.startThread inode).2.tasks = log.tasks := by
        rcases startThread_cases log inode with kept | kept <;> rw [kept] <;>
          exact ⟨rfl, Nat.le_refl _, rfl⟩
      unfold AofTasks.fsyncStarts
      split
      · exact ⟨(started _).1, (started _).2.1, Or.inr ⟨_, congrArg (List.set · _ _) (started _).2.2⟩⟩
      · exact ⟨(started _).1, (started _).2.1, Or.inr ⟨_, congrArg (List.set · _ _) (started _).2.2⟩⟩
      · exact ⟨rfl, Nat.le_refl _, Or.inl rfl⟩
  | fsyncEnds number done =>
      refine @onTask (fun log number task => log.fsyncEnds number task done) number
        fun task => ?_
      have ended (inode : Inode) (length : Nat) :
          (log.endThread inode length done).store = log.store ∧
            log.durable ≤ (log.endThread inode length done).durable ∧
            (log.endThread inode length done).tasks = log.tasks := by
        unfold AofTasks.endThread
        split_ifs
        · exact ⟨rfl, log.disk.durable_settle_le inode _ length, rfl⟩
        · exact ⟨rfl, Nat.le_refl _, rfl⟩
      unfold AofTasks.fsyncEnds
      split
      · exact ⟨(ended _ _).1, (ended _ _).2.1, Or.inr ⟨_, congrArg (List.set · _ _) (ended _ _).2.2⟩⟩
      · exact ⟨(ended _ _).1, (ended _ _).2.1, Or.inr ⟨_, congrArg (List.set · _ _) (ended _ _).2.2⟩⟩
      · exact ⟨rfl, Nat.le_refl _, Or.inl rfl⟩
  | resume number =>
      refine onTask fun task => ?_
      unfold AofTasks.resume
      split
      · split <;> exact ⟨rfl, Nat.le_refl _, Or.inr ⟨_, rfl⟩⟩
      · exact ⟨rfl, Nat.le_refl _, Or.inl rfl⟩
  | cancel number =>
      refine onTask fun task => ?_
      unfold AofTasks.cancel
      split
      · exact ⟨rfl, Nat.le_refl _, Or.inr ⟨_, rfl⟩⟩
      · exact ⟨rfl, Nat.le_refl _, Or.inr ⟨_, rfl⟩⟩
      · exact ⟨rfl, Nat.le_refl _, Or.inl rfl⟩
  | write | rewrite | writer | resumeRewrite | swap | cancelSwap => exact atLock.elim

/-- What a turn of a rewrite leaves alone.  When it starts it sweeps the store. -/
structure RewriteFrame (log other : AofTasks) : Prop where
  tasks : other.tasks = log.tasks
  records : other.records = log.records
  store : other.store = log.store ∨
    ∃ clock, other.store = (buildRewriteCommands clock log.store).2

theorem rewrite_frame (log : AofTasks) {step : AofStep} (apart : ¬ step.AtLock)
    (aside : ∀ store commands, step ≠ .write store commands) :
    RewriteFrame log (log.step step) := by
  have same : RewriteFrame log log := ⟨rfl, rfl, Or.inl rfl⟩
  cases step with
  | commit | syncAsync | acquire | fsyncStarts | fsyncEnds | resume | cancel =>
      exact absurd trivial apart
  | write store commands => exact absurd rfl (aside store commands)
  | rewrite clock =>
      simp only [AofTasks.step, AofTasks.rewrite]
      split_ifs
      · exact same
      · exact ⟨rfl, rfl, Or.inr ⟨clock, rfl⟩⟩
  | writer progress =>
      simp only [AofTasks.step, AofTasks.writer]
      split <;> exact ⟨rfl, rfl, Or.inl rfl⟩
  | resumeRewrite =>
      simp only [AofTasks.step, AofTasks.resumeRewrite]
      split <;> exact ⟨rfl, rfl, Or.inl rfl⟩
  | cancelSwap =>
      simp only [AofTasks.step, AofTasks.cancelSwap]
      split <;> exact ⟨rfl, rfl, Or.inl rfl⟩
  | swap outcome =>
      simp only [AofTasks.step, AofTasks.swap]
      split
      · split_ifs
        · cases outcome <;> exact ⟨rfl, rfl, Or.inl rfl⟩
        · exact same
      · exact same

/-- The file of the log is open at its path. -/
def Opened (log : AofTasks) : Prop := log.file = some log.disk.log

/-- A rewrite leaves the log open when the old file can be closed. -/
theorem Opened.step (opened : log.Opened) (sound : Sound log) {step : AofStep}
    (closes : step ≠ .swap .closeFails) : (log.step step).Opened := by
  by_cases atLock : step.AtLock
  · have alike := alike_of_task log atLock
    exact alike.file.trans (opened.trans (congrArg some alike.disk.log.symm))
  · have prepared := sound.prepared
    cases step with
    | commit | syncAsync | acquire | fsyncStarts | fsyncEnds | resume | cancel =>
        exact absurd trivial atLock
    | write store commands =>
        unfold Opened at opened ⊢
        simp only [AofTasks.step, AofTasks.write, opened]
        rfl
    | rewrite clock =>
        simp only [AofTasks.step, AofTasks.rewrite]
        split_ifs <;> exact opened
    | writer progress =>
        simp only [AofTasks.step, AofTasks.writer]
        split
        · rename_i origin thread rewriting
          rw [rewriting] at prepared
          have beside := (prepared.2.1.step sound.disk progress).2.1
          exact opened.trans (congrArg some beside.log.symm)
        · exact opened
    | resumeRewrite =>
        simp only [AofTasks.step, AofTasks.resumeRewrite]
        split <;> exact opened
    | cancelSwap =>
        simp only [AofTasks.step, AofTasks.cancelSwap]
        split <;> exact opened
    | swap outcome =>
        obtain ⟨-, beside, -, -, -⟩ := sound.disk.openAppend
        have path : log.file = some log.disk.openAppend.2.log :=
          opened.trans (congrArg some beside.log.symm)
        simp only [AofTasks.step, AofTasks.swap]
        split
        · split_ifs
          · cases outcome with
            | closeFails => exact absurd rfl closes
            | openFails => exact opened
            | writeFails | fsyncFails => exact path
            | replaceFails | replaced => rfl
          · exact opened
        · exact opened

/-- What the log begins with is durable. -/
def HeadDurable (log : AofTasks) : Prop := log.origin.head.length ≤ log.durable

theorem HeadDurable.longer {other : AofTasks} (head : log.HeadDurable)
    (origin : other.origin = log.origin) (durable : log.durable ≤ other.durable) :
    other.HeadDurable := by
  rw [HeadDurable, origin]
  exact le_trans head durable

theorem HeadDurable.step (head : log.HeadDurable) (sound : Sound log) (step : AofStep) :
    (log.step step).HeadDurable := by
  have beside {other : AofTasks} (origin : other.origin = log.origin)
      (disk : log.disk.Beside other.disk) : other.HeadDurable := by
    refine head.longer origin ?_
    rw [AofTasks.durable, AofTasks.durable, disk.log, disk.file]
  have same {other : AofTasks} (origin : other.origin = log.origin)
      (disk : other.disk = log.disk) : other.HeadDurable :=
    beside origin (by rw [disk]; exact .refl log.disk)
  have failed : log.failRewrite.HeadDurable := beside rfl (Disk.Beside.refl log.disk).unlink
  by_cases atLock : step.AtLock
  · exact head.longer (alike_of_task log atLock).origin (atLock_frame log atLock).durable
  have prepared := sound.prepared
  cases step with
  | commit | syncAsync | acquire | fsyncStarts | fsyncEnds | resume | cancel =>
      exact absurd trivial atLock
  | write store commands =>
      simp only [AofTasks.step, AofTasks.write]
      split
      · exact same rfl rfl
      · rename_i inode opened
        obtain rfl : inode = log.disk.log := by
          rcases sound.file with closed | here
          · rw [closed] at opened
            cases opened
          · exact Option.some.inj (opened.symm.trans here)
        exact head.longer rfl (log.disk.durable_append _).ge
  | rewrite clock =>
      simp only [AofTasks.step, AofTasks.rewrite]
      split_ifs <;> exact same rfl rfl
  | writer progress =>
      simp only [AofTasks.step, AofTasks.writer]
      split
      · rename_i origin thread rewriting
        rw [rewriting] at prepared
        exact beside rfl (prepared.2.1.step sound.disk progress).2.1
      · exact same rfl rfl
  | resumeRewrite =>
      simp only [AofTasks.step, AofTasks.resumeRewrite]
      split
      · exact same rfl rfl
      · exact failed
      · exact same rfl rfl
  | cancelSwap =>
      simp only [AofTasks.step, AofTasks.cancelSwap]
      split
      · exact failed
      · exact same rfl rfl
  | swap outcome =>
      have after := sound.swap outcome
      obtain ⟨-, opened, -, -, apart⟩ := sound.disk.openAppend
      have appended (data : Bytes) :
          log.disk.Beside (log.disk.openAppend.2.append log.disk.openAppend.1 data) :=
        opened.trans (Disk.beside_append (opened.log ▸ apart) data)
      have synced (data : Bytes) : log.disk.Beside
          ((log.disk.openAppend.2.append log.disk.openAppend.1 data).fsync
            log.disk.openAppend.1) :=
        (appended data).trans (Disk.beside_settle (opened.log ▸ apart) _)
      simp only [AofTasks.step, AofTasks.swap] at after ⊢
      split at after
      · split_ifs at after ⊢
        · cases outcome with
          | openFails => exact failed
          | writeFails count => exact beside rfl (appended _).unlink
          | fsyncFails => exact beside rfl (appended _).unlink
          | closeFails => exact beside rfl (synced _).unlink
          | replaceFails => exact beside rfl (synced _).unlink
          | replaced =>
              have whole := congrArg List.length after.content
              rw [List.length_append] at whole
              refine le_trans ?_ (content_le_durable_replace _ _)
              exact le_trans (Nat.le_add_right _ _) whole.ge
        · exact same rfl rfl
      · exact same rfl rfl

end AofTasks

section Serving

variable {clock : Clock} {server : Server} {authed : Bool} {request : List Bytes}
  {step : ServerStep}

/-- A primary without a memory cap whose contents have no deadlines. -/
structure UndatedPrimary (server : Server) : Prop where
  replicaOf : server.replicaOf = none
  unlimited : server.store.maxmemory = 0
  drained : server.store.evicted = []
  undated : Undated server.store.plain
  storing : server.store.Storing

theorem UndatedPrimary.represents (primary : UndatedPrimary server) (clock : Clock) :
    Represents clock server.store server.store.plain :=
  represents_of_undated primary.unlimited primary.drained primary.undated clock

theorem UndatedPrimary.observes (primary : UndatedPrimary server) {now : Time} {store : Store}
    (observes : Observes now server.store store) {after : Server} (same : after.store = store)
    (replicaOf : after.replicaOf = none) :
    UndatedPrimary after ∧ after.store.plain = server.store.plain := by
  have plain := plain_of_observes observes primary.undated
  subst same
  refine ⟨⟨replicaOf, observes.maxmemory.trans primary.unlimited,
    observes.evicted.trans primary.drained, ?_, ?_⟩, plain⟩
  · rw [plain]
    exact primary.undated
  · exact (Store.Includes.of_purged observes.cells).storing primary.storing

theorem storing_handle (storing : server.store.Storing) (deliverable : Deliverable request) :
    (server.handle clock authed request).server.store.Storing := by
  rcases Server.handle_cases clock server authed request with quiet | ⟨-, -, -, executes⟩
  · exact (Store.Includes.of_purged quiet.observes.cells).storing storing
  rw [executes]
  let counted : Server := { server with commandsProcessed := server.commandsProcessed + 1 }
  have dispatched : (dispatch clock server.store (received request)).2.Storing :=
    (reaches_dispatch fun _ => storable_of_mem deliverable.sizes).storing storing
  by_cases goes : Accepted (dispatch clock counted.store (received request)).1 ∧
      isWriteCommand (serverName request) = true
  · obtain ⟨accepted, isWrite⟩ := goes
    obtain ⟨records, recorded⟩ := toAofCommands_of_accepted accepted clock.time
    obtain ⟨store, -, -, -⟩ :=
      Server.execute_of_accepted clock counted authed accepted isWrite recorded
    rw [store]
    exact dispatched
  · obtain ⟨refused, -⟩ := Server.execute_of_refused clock counted authed goes
    rw [refused]
    exact dispatched

/-- A command that gives no deadline is logged in one record. -/
theorem length_toAofCommands {records : List (List Arg)} {found : Arg → Bool}
    (nonempty : request ≠ [])
    (recorded : toAofCommands clock.time (received request) = .ok records)
    (free : ∀ opts, Command.ofCommand (received request) = some .set →
      parseSet (received request).tail = .ok opts → opts.blocked (found opts.key) = false)
    (timeless : ∀ effect ∈ loggedEffects clock.time found (received request), Timeless effect) :
    records.length = 1 := by
  cases request with
  | nil => exact absurd rfl nonempty
  | cons head args =>
      change toAofCommands clock.time (.bytes head :: received args) = .ok records at recorded
      unfold toAofCommands at recorded
      dsimp only at recorded
      by_cases isSet : upper (toText (.bytes head)) = "SET".toList
      · rw [if_pos isSet] at recorded
        have known : Command.ofCommand (received (head :: args)) = some .set :=
          Command.ofName_eq_some_iff.mpr isSet.symm
        cases parsed : parseSet (received args) with
        | error raised =>
            rw [parsed] at recorded
            cases recorded
            rfl
        | ok opts =>
            rw [parsed] at recorded
            dsimp only at recorded
            cases lifetime : opts.ttl with
            | none =>
                rw [lifetime] at recorded
                cases recorded
                rfl
            | some ttl =>
                -- its effect would have given the deadline
                have blocked := free opts known parsed
                have given := timeless (.act opts.key (.write opts.value
                  (some (ofMs (deadlineMs clock.time ttl))))) (by
                    rw [loggedEffects, known]
                    change _ ∈ loggedSet clock.time found (received args)
                    simp [loggedSet, parsed, blocked, lifetime])
                cases given
      · rw [if_neg isSet] at recorded
        split_ifs at recorded
        · split at recorded
          · split at recorded <;> cases recorded
            rfl
          · cases recorded
            rfl
        · split at recorded
          · split at recorded <;> cases recorded
            rfl
          · cases recorded
            rfl
        · cases recorded
          rfl

/-- What a turn of a client or of the sweep does to the contents and to the log: nothing, or
one record tells it. -/
inductive Told (clock : Clock) (server : Server) (step : ServerStep) : Prop
  | silent : step.records clock server = [] →
      (server.step clock step).store.plain = server.store.plain → Told clock server step
  | told (record : List Arg) : step.records clock server = [record] →
      LogTells [sent record] (step.effects clock server) →
      (server.step clock step).store.plain =
        applyAll 0 (step.effects clock server) server.store.plain → Told clock server step

theorem UndatedPrimary.serve (primary : UndatedPrimary server) (client : step.Client)
    (timeless : ∀ effect ∈ step.effects clock server, Timeless effect) :
    UndatedPrimary (server.step clock step) ∧ Told clock server step := by
  have represents := primary.represents clock
  cases step with
  | sweep =>
      obtain ⟨after, plain⟩ := @primary.observes _ _ _ (observes_sweep clock.monotonic server.store)
        (server.step clock .sweep) rfl primary.replicaOf
      exact ⟨after, .silent rfl plain⟩
  | command authed request =>
      obtain ⟨replicaOf, idle | logged⟩ :=
        idle_or_logged authed represents client.1 client.2
      · have silent : ¬ server.Logs clock authed request := not_not.mpr idle.propagated
        have plain := plain_of_represents idle.represents primary.undated
        have after := idle.represents
        refine ⟨⟨replicaOf.trans primary.replicaOf, after.unlimited, after.drained, ?_, ?_⟩,
          .silent (if_neg silent) plain⟩
        · rw [show (server.step clock (.command authed request)).store.plain = _ from plain]
          exact primary.undated
        · exact storing_handle primary.storing client.2
      · have logs : server.Logs clock authed request := by
          rw [Server.Logs, logged.propagated]
          exact List.cons_ne_nil _ _
        obtain ⟨records, recorded, tells, -⟩ := logged.records
        have recordsEq : (ServerStep.command authed request).records clock server = records := by
          rw [ServerStep.records, if_pos logs, recorded]
        have effectsEq : (ServerStep.command authed request).effects clock server =
            loggedEffects clock.time (server.finds clock) (received request) := if_pos logs
        rw [effectsEq] at timeless
        have same := eq_of_tracks (tracks_loggedEffects (finds_eq represents) (received request))
          timeless
        have after := logged.represents
        rw [same] at after
        have undated := primary.undated.applyAll timeless clock.time
        have plain := plain_of_represents after undated
        have nonempty : request ≠ [] := by
          rintro rfl
          obtain ⟨found, known, -⟩ := logged.known
          cases known
        obtain ⟨record, rfl⟩ := List.length_eq_one_iff.mp
          (length_toAofCommands nonempty recorded logged.free timeless)
        refine ⟨⟨replicaOf.trans primary.replicaOf, after.unlimited, after.drained, ?_, ?_⟩,
          .told record recordsEq ?_ ?_⟩
        · rw [show (server.step clock (.command authed request)).store.plain = _ from plain]
          exact undated
        · exact storing_handle primary.storing client.2
        · rw [effectsEq]
          exact tells
        · rw [effectsEq]
          exact plain.trans (primary.undated.applyAll_at timeless _ _)

end Serving

section Snapshots

variable {clock : Clock} {server : Server} {entries : List (Arg × Content)} {space : PlainMap}
  {key : Arg}

/-- A content as a write without a deadline. -/
def writeOf (entry : Arg × Content) : Effect Arg Arg Time := .act entry.1 (.write entry.2.1 none)

theorem applyAll_writes_of_absent (absent : key ∉ entries.map Prod.fst) :
    applyAll 0 (entries.map writeOf) space key = space key := by
  induction entries generalizing space with
  | nil => rfl
  | cons entry rest ih =>
      rw [List.map_cons, List.mem_cons, not_or] at absent
      rw [List.map_cons, ExpiringMap.applyAll_cons, ih absent.2]
      exact Effect.apply_act_of_ne _ _ _ (Ne.symm absent.1)

/-- Writing contents under different keys leaves each of them. -/
theorem applyAll_writes {entry : Arg × Content} (nodup : (entries.map Prod.fst).Nodup)
    (member : entry ∈ entries) :
    applyAll 0 (entries.map writeOf) space entry.1 = some (entry.2.1, none) := by
  induction entries generalizing space with
  | nil => cases member
  | cons head rest ih =>
      rw [List.map_cons, List.nodup_cons] at nodup
      rw [List.map_cons, ExpiringMap.applyAll_cons]
      rcases List.mem_cons.mp member with rfl | inRest
      · rw [applyAll_writes_of_absent nodup.1]
        exact Effect.apply_act_self ..
      · exact ih nodup.2 inRest

/-- The head of a rewritten log tells the contents of the store. -/
structure Tells (head : Bytes) (plain : PlainMap) (records : List (List Bytes))
    (effects : List (Effect Arg Arg Time)) : Prop where
  head : head = logOf records
  tells : LogTells records effects
  timeless : ∀ effect ∈ effects, Timeless effect
  plain : applyAll 0 effects (fun _ => none) = plain

theorem UndatedPrimary.tells_rewritePayload (primary : UndatedPrimary server) (clock : Clock) :
    ∃ records effects, Tells (rewritePayload clock server.store) server.store.plain records
      effects := by
  let listing := server.store.live clock.monotonic
  have held (key : Arg) : listing.get? key = server.store.plain key := by
    rw [← Store.live_plain, primary.undated.live]
  have content (entry : Arg × Content) (member : entry ∈ listing.entries) :
      server.store.plain entry.1 = some entry.2 := by
    rw [← held]
    exact OrderedDict.get?_eq_some_iff.mpr member
  have record (entry : Arg × Content) (member : entry ∈ listing.entries) :
      rewriteRecords clock entry = [[.ofString "SET", entry.1, entry.2.1]] ∧
        LogTells [sent [.ofString "SET", entry.1, entry.2.1]] [writeOf entry] := by
    have here := content entry member
    have timeless := primary.undated entry.1 entry.2 here
    obtain ⟨⟨keyData, isKey, keySmall⟩, valueData, isValue, valueSmall⟩ :=
      primary.storing entry.1 entry.2 here
    constructor
    · rw [rewriteRecords, timeless]
    · rw [writeOf, isKey, isValue]
      exact logTells_set keySmall valueSmall
  have tells (part : List (Arg × Content)) (inside : ∀ entry ∈ part, entry ∈ listing.entries) :
      part.flatMap (rewriteRecords clock) =
          part.map (fun entry => [.ofString "SET", entry.1, entry.2.1]) ∧
        LogTells (part.map fun entry => sent [.ofString "SET", entry.1, entry.2.1])
          (part.map writeOf) := by
    induction part with
    | nil => exact ⟨rfl, logTells_nil⟩
    | cons entry rest ih =>
        rw [List.forall_mem_cons] at inside
        obtain ⟨recordEq, one⟩ := record entry inside.1
        obtain ⟨restEq, others⟩ := ih inside.2
        refine ⟨?_, one.append others⟩
        rw [List.flatMap_cons, recordEq, restEq]
        rfl
  obtain ⟨recordsEq, told⟩ := tells listing.entries fun _ member => member
  refine ⟨_, _, ?_, told, ?_, funext fun key => ?_⟩
  · rw [rewritePayload, buildRewriteCommands_eq, recordsEq, flatMap_encodeCommand, List.map_map]
    rfl
  · rintro _ member
    obtain ⟨entry, -, rfl⟩ := List.mem_map.mp member
    rfl
  · cases here : server.store.plain key with
    | none =>
        rw [applyAll_writes_of_absent]
        rintro inKeys
        obtain ⟨entry, member, rfl⟩ := List.mem_map.mp inKeys
        rw [content entry member] at here
        cases here
    | some value =>
        have listed := OrderedDict.get?_eq_some_iff.mp ((held key).trans here)
        have written := @applyAll_writes _ (fun _ => none) _ listing.nodupKeys listed
        rw [written]
        exact congrArg some (Prod.ext rfl (primary.undated key value here).symm)

end Snapshots

section Recovery

variable {server : Server} {start : Node} {steps : List NodeStep}

/-- A log begins with the contents that the store had after some first turns, of which it holds
the records behind them. -/
def Based (start : Node) (steps : List NodeStep) (origin : Origin) : Prop :=
  ∃ before records effects, before <+: steps ∧
    origin.covered = (start.tells before).length ∧
    Tells origin.head (start.run before).server.store.plain records effects

theorem Based.longer {origin : Origin} (based : Based start steps origin) (step : NodeStep) :
    Based start (steps ++ [step]) origin := by
  obtain ⟨before, records, effects, isPrefix, covered, tells⟩ := based
  exact ⟨before, records, effects, isPrefix.trans (List.prefix_append _ _), covered, tells⟩

/-- What holds along a run. -/
structure Recovering (start : Node) (steps : List NodeStep) : Prop where
  primary : UndatedPrimary (start.run steps).server
  hosted : (start.run steps).log.store = (start.run steps).server.store
  committed : (start.run steps).log.Committed
  opened : (start.run steps).log.Opened
  head : (start.run steps).log.HeadDurable
  records : ∃ records : List (List Bytes),
    (start.run steps).log.records = records.map (fun record => encodeCommand (received record)) ∧
    List.Forall₂ (fun record effects => LogTells [record] effects) records (start.tells steps)
  timeless : ∀ effects ∈ start.tells steps, ∀ effect ∈ effects, Timeless effect
  plain : (start.run steps).server.store.plain =
    applyAll 0 (start.tells steps).flatten fun _ => none
  origin : Based start steps (start.run steps).log.origin
  plans : ∀ origin ∈ AofTasks.planned (start.run steps).log.rewriting, Based start steps origin
  commits : ∀ before clock step after, steps = before ++ .serve clock step :: after →
    step.Commits clock (start.run before).server →
      ∃ state, (start.run steps).log.tasks[(start.run before).log.tasks.length]? =
        some ⟨some (start.tells (before ++ [.serve clock step])).length, state⟩

/-- The origins after a turn of the tasks. -/
theorem Recovering.based (recovering : Recovering start steps) (turn : AofStep) (step : NodeStep) :
    Based start (steps ++ [step]) ((start.run steps).log.step turn).origin ∧
      ∀ origin ∈ AofTasks.planned ((start.run steps).log.step turn).rewriting,
        Based start (steps ++ [step]) origin := by
  obtain ⟨records, recordsEq, told⟩ := recovering.records
  obtain ⟨origin, plans⟩ := AofTasks.step_origin (start.run steps).log turn
  constructor
  · rcases origin with same | swapped
    · rw [same]
      exact recovering.origin.longer step
    · exact (recovering.plans _ swapped).longer step
  · intro other planned
    rcases plans other planned with before | ⟨clock, -, rfl⟩
    · exact (recovering.plans other before).longer step
    · obtain ⟨payload, effects, tells⟩ := recovering.primary.tells_rewritePayload clock
      refine ⟨steps, payload, effects, List.prefix_append _ _, ?_, ?_⟩
      · change (start.run steps).log.records.length = _
        rw [recordsEq, List.length_map, told.length_eq]
      · change Tells (rewritePayload clock (start.run steps).log.store) _ _ _
        rw [recovering.hosted]
        exact tells

/-- A commit is where it was, or it is that of the last turn. -/
theorem Recovering.commits_append (recovering : Recovering start steps) {step : NodeStep}
    (kept : ∀ (number : Nat) (task : AofTask), (start.run steps).log.tasks[number]? = some task →
      ∃ state, (start.run (steps ++ [step])).log.tasks[number]? =
        some { task with state := state })
    (last : ∀ clock turn, step = .serve clock turn → turn.Commits clock (start.run steps).server →
      ∃ state, (start.run (steps ++ [step])).log.tasks[(start.run steps).log.tasks.length]? =
        some ⟨some (start.tells (steps ++ [step])).length, state⟩) :
    ∀ before clock turn after, steps ++ [step] = before ++ .serve clock turn :: after →
      turn.Commits clock (start.run before).server →
        ∃ state, (start.run (steps ++ [step])).log.tasks[(start.run before).log.tasks.length]? =
          some ⟨some (start.tells (before ++ [.serve clock turn])).length, state⟩ := by
  intro before clock turn after split commits
  rcases List.eq_nil_or_concat after with rfl | ⟨rest, other, rfl⟩
  · obtain ⟨rfl, same⟩ := List.append_inj' split rfl
    obtain rfl := List.singleton_inj.mp same
    exact last clock turn rfl commits
  · rw [List.concat_eq_append, ← List.cons_append, ← List.append_assoc] at split
    obtain ⟨sameSteps, -⟩ := List.append_inj' split rfl
    obtain ⟨state, here⟩ := recovering.commits before clock turn rest sameSteps commits
    exact kept _ _ here

theorem Recovering.task (recovering : Recovering start steps) {turn : AofStep}
    (regular : NodeStep.Regular (start.run steps) (.task turn)) :
    Recovering start (steps ++ [.task turn]) := by
  have run : start.run (steps ++ [.task turn]) = (start.run steps).step (.task turn) := by
    rw [Node.run_append]
    rfl
  have tells : start.tells (steps ++ [.task turn]) = start.tells steps := by
    rw [tells_append]
    exact List.append_nil _
  have aside : ∀ store commands, turn ≠ .write store commands := by
    rintro store commands rfl
    exact regular
  have closes : turn ≠ .swap .closeFails := by
    rintro rfl
    exact regular
  obtain ⟨origin, plans⟩ := recovering.based turn (.task turn)
  have frame : (∀ (number : Nat) (task : AofTask),
        (start.run steps).log.tasks[number]? = some task → ∃ state,
          ((start.run steps).log.step turn).tasks[number]? = some { task with state := state }) ∧
      ((start.run steps).log.step turn).records = (start.run steps).log.records ∧
      ∃ now, Observes now (start.run steps).server.store
        ((start.run steps).log.step turn).store := by
    by_cases atLock : turn.AtLock
    · have frame := AofTasks.atLock_frame (start.run steps).log atLock
      refine ⟨fun _ _ here => frame.moved.kept here,
        (AofTasks.alike_of_task (start.run steps).log atLock).records, 0, ?_⟩
      rw [frame.store, recovering.hosted]
      exact .refl _ _
    · have frame := AofTasks.rewrite_frame (start.run steps).log atLock aside
      refine ⟨fun number task here => ⟨task.state, by rw [frame.tasks, here]⟩, frame.records, ?_⟩
      rcases frame.store with same | ⟨clock, swept⟩
      · refine ⟨0, ?_⟩
        rw [same, recovering.hosted]
        exact .refl _ _
      · refine ⟨clock.monotonic, ?_⟩
        rw [swept, recovering.hosted]
        exact observes_sweep clock.monotonic _
  obtain ⟨kept, records, now, observes⟩ := frame
  obtain ⟨primary, plain⟩ := recovering.primary.observes observes
    (show ((start.run steps).step (.task turn)).server.store = _ from rfl)
    recovering.primary.replicaOf
  have committed := recovering.committed.step turn
  constructor
  case primary => rw [run]; exact primary
  case hosted => rw [run]; rfl
  case committed => rw [run]; exact committed
  case opened => rw [run]; exact recovering.opened.step recovering.committed.sound closes
  case head => rw [run]; exact recovering.head.step recovering.committed.sound turn
  case records =>
    obtain ⟨list, recordsEq, told⟩ := recovering.records
    rw [run, tells]
    exact ⟨list, records.trans recordsEq, told⟩
  case timeless => rw [tells]; exact recovering.timeless
  case plain => rw [run, tells]; exact plain.trans recovering.plain
  case origin => rw [run]; exact origin
  case plans => rw [run]; exact plans
  case commits =>
    refine recovering.commits_append ?_ fun _ _ impossible => by cases impossible
    rw [run]
    exact kept

theorem Recovering.serve (recovering : Recovering start steps) {clock : Clock} {turn : ServerStep}
    (client : turn.Client)
    (timeless : ∀ effect ∈ turn.effects clock (start.run steps).server, Timeless effect) :
    Recovering start (steps ++ [.serve clock turn]) := by
  have run : start.run (steps ++ [.serve clock turn]) = (start.run steps).serve clock turn := by
    rw [Node.run_append]
    rfl
  have tells : start.tells (steps ++ [.serve clock turn]) = start.tells steps ++
      (turn.records clock (start.run steps).server).map
        fun _ => turn.effects clock (start.run steps).server := by
    rw [tells_append]
    exact congrArg (start.tells steps ++ ·) (List.append_nil _)
  obtain ⟨primary, told⟩ := recovering.primary.serve client timeless
  obtain ⟨list, recordsEq, listTold⟩ := recovering.records
  have based := recovering.based (.write ((start.run steps).server.step clock turn).store
    (turn.records clock (start.run steps).server)) (.serve clock turn)
  have committed := recovering.committed.write ((start.run steps).server.step clock turn).store
    (turn.records clock (start.run steps).server)
  have opened : ((start.run steps).log.step (.write _ _)).Opened :=
    @AofTasks.Opened.step _ recovering.opened recovering.committed.sound
      (.write ((start.run steps).server.step clock turn).store
        (turn.records clock (start.run steps).server)) (fun impossible => by cases impossible)
  have head : ((start.run steps).log.step (.write _ _)).HeadDurable :=
    recovering.head.step recovering.committed.sound
      (.write ((start.run steps).server.step clock turn).store
        (turn.records clock (start.run steps).server))
  have path : (start.run steps).log.file = some (start.run steps).log.disk.log :=
    recovering.opened
  generalize writtenEq : (start.run steps).log.write
    ((start.run steps).server.step clock turn).store
    (turn.records clock (start.run steps).server) = written at committed
  simp only [AofTasks.step, writtenEq] at based opened head
  have records : written.records = (start.run steps).log.records ++
      (turn.records clock (start.run steps).server).map encodeCommand := by
    rw [← writtenEq]
    simp only [AofTasks.write, path]
  have tasks : written.tasks = (start.run steps).log.tasks := by
    rw [← writtenEq]
    simp only [AofTasks.write, path]
  have hosted : written.store = ((start.run steps).server.step clock turn).store := by
    rw [← writtenEq]
    simp only [AofTasks.write, path]
  -- the commit moves nothing but the tasks
  have after : (start.run steps).serve clock turn =
      ⟨(start.run steps).server.step clock turn,
        if turn.Commits clock (start.run steps).server then written.commit else written⟩ := by
    rw [Node.serve, writtenEq]
  have both {holds : AofTasks → Prop} (without : holds written) (commit : holds written.commit) :
      holds ((start.run steps).serve clock turn).log := by
    rw [after]
    dsimp only
    split_ifs
    · exact commit
    · exact without
  have server : ((start.run steps).serve clock turn).server =
      (start.run steps).server.step clock turn := by
    rw [after]
  have length : (start.tells (steps ++ [.serve clock turn])).length = written.records.length := by
    rw [tells, records, List.length_append, List.length_append, List.length_map, List.length_map,
      recordsEq, List.length_map, listTold.length_eq]
  constructor
  case primary => rw [run, server]; exact primary
  case hosted =>
    rw [run, server]
    exact @both (fun log => log.store = _) hosted hosted
  case committed => rw [run]; exact both committed committed.commit
  case opened => rw [run]; exact both opened opened
  case head => rw [run]; exact both head head
  case records =>
    have recordsAfter : ((start.run steps).serve clock turn).log.records = written.records :=
      @both (fun log => log.records = written.records) rfl rfl
    rw [run, recordsAfter, records, tells, recordsEq]
    cases told with
    | silent silent _ =>
        rw [silent, List.map_nil, List.map_nil, List.append_nil, List.append_nil]
        exact ⟨list, rfl, listTold⟩
    | told record single one _ =>
        rw [single]
        refine ⟨list ++ [sent record], ?_, ?_⟩
        · rw [List.map_append, List.map_singleton, List.map_singleton, encodeCommand_sent]
        · exact List.rel_append listTold (.cons one .nil)
  case timeless =>
    rw [tells]
    intro effects member
    rcases List.mem_append.mp member with old | new
    · exact recovering.timeless effects old
    · obtain ⟨_, -, rfl⟩ := List.mem_map.mp new
      exact timeless
  case plain =>
    rw [run, server, tells, List.flatten_append, ExpiringMap.applyAll_append, ← recovering.plain]
    cases told with
    | silent silent same =>
        rw [silent]
        exact same
    | told record single _ applied =>
        rw [single, List.map_singleton, List.flatten_cons, List.flatten_nil, List.append_nil]
        exact applied
  case origin =>
    rw [run]
    exact @both (fun log => Based start (steps ++ [.serve clock turn]) log.origin) based.1 based.1
  case plans =>
    rw [run]
    exact @both (fun log => ∀ origin ∈ AofTasks.planned log.rewriting,
      Based start (steps ++ [NodeStep.serve clock turn]) origin) based.2 based.2
  case commits =>
    refine recovering.commits_append ?_ ?_
    · rw [run]
      intro number task here
      rw [← tasks] at here
      refine @both (fun log => ∃ state, log.tasks[number]? = some { task with state := state })
        ⟨task.state, here⟩ ⟨task.state, ?_⟩
      obtain ⟨inside, -⟩ := List.getElem?_eq_some_iff.mp here
      exact (List.getElem?_append_left inside).trans here
    · rintro _ _ ⟨⟩ commits
      rw [run, after, if_pos commits, ← tasks, length, ← committed.seq]
      exact ⟨_, List.getElem?_concat_length⟩

theorem Recovering.run (recovering : Recovering start []) (regular : Regular start steps) :
    Recovering start steps := by
  induction steps using List.reverseRecOn with
  | nil => exact recovering
  | append_singleton steps step ih =>
      obtain ⟨before, here, -⟩ := regular_append.mp regular
      cases step with
      | serve clock turn => exact (ih before).serve here.1 here.2
      | task turn => exact (ih before).task here

end Recovery

end MiniCache
