import MiniCache.ConnectionPool
import MiniCache.LeasePool

/-!
# Replies stay with their requests

The slots and connections of the pool are leased: no connection is used by two requests,
and the idle ones together with the slots in use never exceed the size of the pool.  A
connection that becomes idle has nothing left to answer or to read, so that a request gets
the replies to its own commands.
-/

namespace MiniCache

open LeasePool (Lease)
open ConnectionPool (ownCommands)

/-- What a request has of the pool in a phase. -/
def Phase.lease : Phase → Lease
  | .absent | .acquiring | .returned _ | .raised => .free
  | .connecting => .bare
  | .authWriting conn | .authReading conn | .writing conn _ | .reading conn _ _ => .holding conn

/-- What is under way on the connection of a request in a phase. -/
def Phase.Expects (number : Nat) (request : Request) (stream : Nat → List Sent) : Phase → Prop
  | .authWriting conn | .writing conn _ => stream conn = []
  | .authReading conn => stream conn <+: [.auth number request.attempt]
  | .reading conn _ replies =>
      replies.map ShardReply.sent ++ stream conn <+: ownCommands number request
  | .returned replies => replies.map ShardReply.sent = ownCommands number request
  | _ => True

/-- What is lost or answered leaves a connection fitting. -/
theorem Phase.Expects.mono {phase : Phase} {number : Nat} {request : Request} {stream less : Nat → List Sent}
    (expects : phase.Expects number request stream)
    (shrinks : ∀ conn, phase.lease = .holding conn → less conn <+: stream conn) :
    phase.Expects number request less := by
  cases phase with
  | absent | acquiring | connecting | raised => trivial
  | returned replies => exact expects
  | authWriting conn | writing conn reused =>
      have shorter := shrinks conn rfl
      rw [show stream conn = [] from expects] at shorter
      exact List.prefix_nil.mp shorter
  | authReading conn => exact (shrinks conn rfl).trans expects
  | reading conn reused replies =>
      exact ((List.prefix_append_right_inj _).mpr (shrinks conn rfl)).trans expects

/-- The replies that a request has got so far. -/
def Phase.got : Phase → List ShardReply
  | .reading _ _ replies | .returned replies => replies
  | _ => []

namespace ConnectionPool

variable {pool : ConnectionPool}

section Leases

/-- The pool as permits and resources. -/
def leases (pool : ConnectionPool) : LeasePool.State Nat where
  permits := pool.slots
  idle := pool.idle
  fresh := pool.opened
  lease := fun number => (pool.requests number).phase.lease

/-- A change of one request changes what it has. -/
theorem leases_of_update {next : ConnectionPool} {number : Nat} {request : Request}
    (requests : next.requests = Function.update pool.requests number request) :
    next.leases =
      { pool.leases.update number request.phase.lease with
        permits := next.slots
        idle := next.idle
        fresh := next.opened } := by
  have changed : (fun other => (next.requests other).phase.lease) =
      Function.update (fun other => (pool.requests other).phase.lease) number
        request.phase.lease := by
    funext other
    rw [requests]
    by_cases same : other = number
    · subst same
      simp
    · simp [same]
  simp only [leases, changed, LeasePool.State.update]

/-- A request that keeps what it has. -/
theorem step_of_same {number : Nat} {lease : Lease}
    (same : (pool.requests number).phase.lease = lease) :
    LeasePool.Step pool.leases
      { pool.leases.update number lease with
        permits := pool.slots
        idle := pool.idle
        fresh := pool.opened } := by
  have kept : (pool.leases.update number lease) = pool.leases := by
    rw [← same, LeasePool.State.update]
    simp [leases, Function.update_eq_self]
  rw [kept]
  exact .stay

end Leases

section Soundness

/-- What is under way on a connection: the replies that are not read, then the commands
that are not answered. -/
def stream (pool : ConnectionPool) (conn : Nat) : List Sent :=
  (pool.connections conn).unread.map ShardReply.sent ++ (pool.connections conn).unanswered

/-- The connections have under way what a request expects in its phase. -/
def Fits (pool : ConnectionPool) (number : Nat) : Prop :=
  (pool.requests number).phase.Expects number (pool.requests number) pool.stream

/-- A request has as many slots as its phase says. -/
def Settled (request : Request) : Prop :=
  request.taken = request.given + if request.phase.lease = .free then 0 else 1

structure Sound (poolSize : Nat) (pool : ConnectionPool) : Prop where
  leased : LeasePool.Sound poolSize pool.leases
  settled : ∀ number, Settled (pool.requests number)
  quiet : ∀ conn ∈ pool.idle, pool.stream conn = []
  fits : ∀ number, pool.Fits number
  known : ∀ number, ∀ reply ∈ (pool.requests number).phase.got, reply ∈ pool.replies
  unread : ∀ conn, ∀ reply ∈ (pool.connections conn).unread, reply ∈ pool.replies

variable {poolSize : Nat} {next : ConnectionPool} {number conn : Nat}

theorem sound_init (poolSize : Nat) (password : Option Text) :
    Sound poolSize (init poolSize password) where
  leased := LeasePool.sound_init poolSize
  settled := fun _ => rfl
  quiet := by simp [init]
  fits := fun _ => trivial
  known := by simp [init, Phase.got]
  unread := by simp [init, Conn.opened]

/-- A turn of one request, which may touch the connection it uses or a new one. -/
theorem Sound.turn (sound : Sound poolSize pool) (number : Nat) {request : Request}
    (requests : next.requests = Function.update pool.requests number request)
    (leased : LeasePool.Step pool.leases
      { pool.leases.update number request.phase.lease with
        permits := next.slots
        idle := next.idle
        fresh := next.opened })
    (replies : next.replies = pool.replies) (settled : Settled request)
    (expects : request.phase.Expects number request next.stream)
    (known : ∀ reply ∈ request.phase.got, reply ∈ pool.replies)
    (streams : ∀ conn < pool.opened, (pool.requests number).phase.lease ≠ .holding conn →
      next.stream conn = pool.stream conn)
    (unread : ∀ conn, ∀ reply ∈ (next.connections conn).unread,
      reply ∈ (pool.connections conn).unread)
    (quiet : ∀ conn ∈ next.idle, conn ∈ pool.idle ∨ next.stream conn = []) :
    Sound poolSize next := by
  have here : next.requests number = request := by rw [requests, Function.update_self]
  have others (other : Nat) (different : other ≠ number) :
      next.requests other = pool.requests other := by
    rw [requests, Function.update_of_ne different]
  refine ⟨?_, ?_, ?_, ?_, ?_, ?_⟩
  · rw [leases_of_update requests]
    exact leased.sound sound.leased
  · intro other
    by_cases same : other = number
    · rw [same, here]
      exact settled
    · rw [others other same]
      exact sound.settled other
  · intro conn member
    rcases quiet conn member with before | isQuiet
    · have apart : (pool.requests number).phase.lease ≠ .holding conn := fun holds =>
        sound.leased.apart number conn holds before
      rw [streams conn (sound.leased.idleOld conn before) apart]
      exact sound.quiet conn before
    · exact isQuiet
  · intro other
    by_cases same : other = number
    · rw [Fits, same, here]
      exact expects
    · rw [Fits, others other same]
      refine Phase.Expects.mono (sound.fits other) fun conn holds => ?_
      have apart : (pool.requests number).phase.lease ≠ .holding conn := fun also =>
        same (sound.leased.exclusive other number conn holds also)
      rw [streams conn (sound.leased.heldOld other conn holds) apart]
  · intro other reply member
    rw [replies]
    by_cases same : other = number
    · rw [same, here] at member
      exact known reply member
    · rw [others other same] at member
      exact sound.known other reply member
  · intro conn reply member
    rw [replies]
    exact sound.unread conn reply (unread conn reply member)

/-- A turn that only moves or loses what is under way. -/
theorem Sound.frame (sound : Sound poolSize pool)
    (leased : LeasePool.Step pool.leases next.leases)
    (requests : next.requests = pool.requests)
    (shrinks : ∀ conn, next.stream conn <+: pool.stream conn)
    (idle : ∀ conn ∈ next.idle, conn ∈ pool.idle)
    (replies : ∀ reply ∈ pool.replies, reply ∈ next.replies)
    (unread : ∀ conn, ∀ reply ∈ (next.connections conn).unread,
      reply ∈ (pool.connections conn).unread ∨ reply ∈ next.replies) :
    Sound poolSize next where
  leased := leased.sound sound.leased
  settled := fun number => requests ▸ sound.settled number
  quiet := by
    intro conn member
    have less := shrinks conn
    rw [sound.quiet conn (idle conn member)] at less
    exact List.prefix_nil.mp less
  fits := by
    intro number
    rw [Fits, requests]
    exact Phase.Expects.mono (sound.fits number) fun conn _ => shrinks conn
  known := by
    intro number reply member
    rw [requests] at member
    exact replies reply (sound.known number reply member)
  unread := by
    intro conn reply member
    rcases unread conn reply member with before | new
    · exact replies reply (sound.unread conn reply before)
    · exact new

end Soundness

section Turns

variable {poolSize : Nat}

theorem setConn_self (conn : Nat) (connection : Conn) :
    (pool.setConn conn connection).connections conn = connection :=
  Function.update_self ..

theorem setConn_of_ne {conn other : Nat} (different : other ≠ conn) (connection : Conn) :
    (pool.setConn conn connection).connections other = pool.connections other :=
  Function.update_of_ne different ..

theorem stream_setConn_self (conn : Nat) (connection : Conn) :
    (pool.setConn conn connection).stream conn =
      connection.unread.map ShardReply.sent ++ connection.unanswered := by
  rw [stream, setConn_self]

theorem stream_setConn_of_ne {conn other : Nat} (different : other ≠ conn) (connection : Conn) :
    (pool.setConn conn connection).stream other = pool.stream other := by
  rw [stream, setConn_of_ne different, stream]

theorem unread_setConn {conn other : Nat} (connection : Conn) {reply : ShardReply}
    (fewer : ∀ reply ∈ connection.unread, reply ∈ (pool.connections conn).unread)
    (member : reply ∈ ((pool.setConn conn connection).connections other).unread) :
    reply ∈ (pool.connections other).unread := by
  by_cases same : other = conn
  · subst same
    rw [setConn_self] at member
    exact fewer reply member
  · rw [setConn_of_ne same] at member
    exact member

theorem stream_closeWriter (conn other : Nat) :
    (pool.closeWriter conn).stream other = pool.stream other := by
  by_cases same : other = conn
  · subst same
    exact stream_setConn_self ..
  · exact stream_setConn_of_ne same _

theorem send_cases (conn : Nat) (commands : List Sent) :
    pool.send conn commands = pool ∨
      pool.send conn commands = pool.setConn conn
        { pool.connections conn with
          unanswered := (pool.connections conn).unanswered ++ commands } := by
  unfold send
  dsimp only
  split_ifs
  · exact Or.inr rfl
  · exact Or.inl rfl

theorem Sound.closeWriter (sound : Sound poolSize pool) (conn : Nat) :
    Sound poolSize (pool.closeWriter conn) := by
  refine sound.frame .stay rfl (fun other => ?_) (fun _ member => member)
    (fun _ member => member) fun other reply member => ?_
  · rw [stream_closeWriter]
  · exact Or.inl (unread_setConn { pool.connections conn with closed := true }
      (fun _ member => member) member)

/-- A request that is done gives its slot back. -/
theorem Sound.leave (sound : Sound poolSize pool) {number : Nat} {phase : Phase}
    (taken : (pool.requests number).phase.lease ≠ .free) (isFree : phase.lease = .free)
    (expects : ∀ given, phase.Expects number
      { pool.requests number with phase := phase, given := given } pool.stream)
    (known : ∀ reply ∈ phase.got, reply ∈ pool.replies) :
    Sound poolSize (pool.leave number none false phase) := by
  refine sound.turn number rfl ?_ rfl ?_ (expects _) known (fun _ _ _ => rfl)
    (fun _ _ member => member) fun _ member => Or.inl member
  · dsimp only
    rw [isFree]
    exact .discard number taken
  · have settled := sound.settled number
    rw [Settled, if_neg taken] at settled
    rw [Settled, if_pos isFree]
    exact settled

theorem leave_false (number conn : Nat) (phase : Phase) :
    pool.leave number (some conn) false phase =
      (pool.closeWriter conn).leave number none false phase :=
  rfl

/-- A request enters with a slot and, when one is idle, with a connection. -/
theorem Sound.acquire (sound : Sound poolSize pool) (number : Nat) :
    Sound poolSize (pool.acquire number) := by
  unfold ConnectionPool.acquire
  dsimp only
  split
  swap
  · exact sound
  rename_i phase
  split_ifs with some
  swap
  · exact sound
  have isFree : (pool.requests number).phase.lease = .free := by rw [phase, Phase.lease]
  have settled := sound.settled number
  rw [Settled, isFree, if_pos rfl] at settled
  split
  · rename_i conn last
    obtain ⟨rest, last⟩ := List.getLast?_eq_some_iff.mp last
    have dropped : pool.idle.dropLast = rest := by rw [last, List.dropLast_concat]
    rw [dropped]
    refine sound.turn number rfl (.takeIdle number rest conn isFree some last) rfl ?_ ?_ ?_ ?_ ?_ ?_
    · simp only [Settled, Phase.lease]
      simp [settled]
    · exact sound.quiet conn (by simp [last])
    · simp [Phase.got]
    · exact fun _ _ _ => rfl
    · exact fun _ _ member => member
    · intro other member
      refine Or.inl ?_
      rw [last]
      exact List.mem_append_left _ member
  · rename_i nothing
    have empty := List.getLast?_eq_none_iff.mp nothing
    refine sound.turn number rfl (.takeBare number isFree some empty) rfl ?_ trivial ?_ ?_ ?_ ?_
    · simp only [Settled, Phase.lease]
      simp [settled]
    · simp [Phase.got]
    · exact fun _ _ _ => rfl
    · exact fun _ _ member => member
    · exact fun _ member => Or.inl member

/-- A request that waited for a connection gets a new one. -/
theorem Sound.connected (sound : Sound poolSize pool) (number : Nat) :
    Sound poolSize (pool.connected number) := by
  unfold ConnectionPool.connected
  split
  swap
  · exact sound
  rename_i phase
  have isBare : (pool.requests number).phase.lease = .bare := by rw [phase, Phase.lease]
  have settled := sound.settled number
  rw [Settled, isBare] at settled
  have attach {phase : Phase} (holds : phase.lease = .holding pool.opened)
      (expects : ∀ stream : Nat → List Sent, stream pool.opened = [] →
        phase.Expects number { pool.requests number with phase := phase } stream)
      (none : phase.got = []) :
      Sound poolSize { (pool.setConn pool.opened .opened).setPhase number phase with
        opened := pool.opened + 1 } := by
    refine sound.turn number rfl ?_ rfl ?_ (expects _ ?_) ?_ ?_ ?_ fun _ member => Or.inl member
    · dsimp only
      rw [holds]
      exact .attach number isBare
    · rw [Settled, holds]
      exact settled
    · exact stream_setConn_self ..
    · simp [none]
    · exact fun conn old _ => stream_setConn_of_ne (Nat.ne_of_lt old) _
    · exact fun conn reply member => unread_setConn .opened (by simp [Conn.opened]) member
  dsimp only
  split_ifs
  · exact attach rfl (fun _ quiet => quiet) rfl
  · exact attach rfl (fun _ quiet => quiet) rfl

/-- A request writes on its connection, which has nothing under way. -/
theorem Sound.send (sound : Sound poolSize pool) {number conn : Nat} {phase : Phase}
    {commands : List Sent} (holds : (pool.requests number).phase.lease = .holding conn)
    (quiet : pool.stream conn = []) (keeps : phase.lease = .holding conn)
    (expects : ∀ stream : Nat → List Sent, stream conn <+: commands →
      phase.Expects number { pool.requests number with phase := phase } stream)
    (none : phase.got = []) :
    Sound poolSize ((pool.send conn commands).setPhase number phase) := by
  have settled := sound.settled number
  rw [Settled, holds, ← keeps] at settled
  rcases pool.send_cases conn commands with lost | sent
  · rw [lost]
    refine sound.turn number rfl (step_of_same (holds.trans keeps.symm)) rfl settled
      (expects _ ?_) (by simp [none]) (fun _ _ _ => rfl) (fun _ _ member => member)
      fun _ member => Or.inl member
    show pool.stream conn <+: commands
    rw [quiet]
    exact List.nil_prefix
  · rw [sent]
    refine sound.turn number rfl (step_of_same (holds.trans keeps.symm)) rfl settled
      (expects _ ?_) (by simp [none]) ?_ ?_ fun _ member => Or.inl member
    · show (pool.setConn conn _).stream conn <+: commands
      have written : (pool.connections conn).unread.map ShardReply.sent ++
          ((pool.connections conn).unanswered ++ commands) = commands := by
        rw [← List.append_assoc, ← stream, quiet, List.nil_append]
      rw [stream_setConn_self, written]
    · intro other _ apart
      have different : other ≠ conn := fun same => apart (same ▸ holds)
      exact stream_setConn_of_ne different _
    · exact fun other reply member => unread_setConn
        { pool.connections conn with unanswered := (pool.connections conn).unanswered ++ commands }
        (fun _ member => member) member

theorem Sound.authWrite (sound : Sound poolSize pool) (number : Nat) :
    Sound poolSize (pool.authWrite number) := by
  unfold ConnectionPool.authWrite
  split
  swap
  · exact sound
  rename_i conn phase
  have quiet := sound.fits number
  rw [Fits, phase] at quiet
  refine sound.send (by rw [phase, Phase.lease]) quiet rfl (fun stream sent => ?_) rfl
  exact sent

theorem Sound.write (sound : Sound poolSize pool) (number : Nat) :
    Sound poolSize (pool.write number) := by
  unfold ConnectionPool.write
  split
  swap
  · exact sound
  rename_i conn reused phase
  have quiet := sound.fits number
  rw [Fits, phase] at quiet
  refine sound.send (by rw [phase, Phase.lease]) quiet rfl (fun stream sent => ?_) rfl
  exact sent

/-- Taking the next reply from a connection leaves what the shard has under way. -/
theorem stream_of_unread {conn : Nat} {reply : ShardReply} {rest : List ShardReply}
    (unread : (pool.connections conn).unread = reply :: rest) :
    pool.stream conn = reply.sent ::
      (pool.setConn conn { pool.connections conn with unread := rest }).stream conn := by
  rw [stream_setConn_self, stream, unread]
  rfl

theorem Sound.readReply (sound : Sound poolSize pool) (number : Nat) :
    Sound poolSize (pool.readReply number) := by
  unfold ConnectionPool.readReply
  split
  swap
  · exact sound
  rename_i conn reused replies phase
  dsimp only
  split
  · exact sound
  rename_i reply rest unread
  split_ifs
  swap
  · exact sound
  have holds : (pool.requests number).phase.lease = .holding conn := by rw [phase, Phase.lease]
  have settled := sound.settled number
  rw [Settled, holds] at settled
  have expects := sound.fits number
  rw [Fits, phase] at expects
  have known := sound.known number
  rw [phase] at known
  refine sound.turn number rfl (step_of_same holds) rfl settled ?_ ?_ ?_ ?_
    fun _ member => Or.inl member
  · have before := stream_of_unread unread
    rw [Phase.Expects, before] at expects
    rw [Phase.Expects, List.map_append, List.append_assoc]
    exact expects
  · intro other member
    rcases List.mem_append.mp member with earlier | isNew
    · exact known other earlier
    · rw [List.mem_singleton.mp isNew]
      exact sound.unread conn reply (unread ▸ List.mem_cons_self ..)
  · intro other _ apart
    have different : other ≠ conn := fun same => apart (same ▸ holds)
    exact stream_setConn_of_ne different _
  · refine fun other reply member => unread_setConn { pool.connections conn with unread := rest }
      (fun other isRest => ?_) member
    rw [unread]
    exact List.mem_cons_of_mem _ isRest

theorem Sound.authReply (sound : Sound poolSize pool) (number : Nat) :
    Sound poolSize (pool.authReply number) := by
  unfold ConnectionPool.authReply
  split
  swap
  · exact sound
  rename_i conn phase
  dsimp only
  split
  · exact sound
  rename_i reply rest unread
  have expects := sound.fits number
  rw [Fits, phase, Phase.Expects, stream_of_unread unread, List.cons_prefix_cons] at expects
  have quiet := List.prefix_nil.mp expects.2
  have holds : (pool.requests number).phase.lease = .holding conn := by rw [phase, Phase.lease]
  have read : Sound poolSize (pool.setConn conn { pool.connections conn with unread := rest }) := by
    refine sound.frame .stay rfl (fun other => ?_) (fun _ member => member)
      (fun _ member => member) fun other reply member => Or.inl ?_
    · by_cases same : other = conn
      · rw [same, quiet]
        exact List.nil_prefix
      · rw [stream_setConn_of_ne same]
    · refine unread_setConn { pool.connections conn with unread := rest }
        (fun other isRest => ?_) member
      rw [unread]
      exact List.mem_cons_of_mem _ isRest
  split_ifs with refused
  · refine (read.closeWriter conn).leave (holds.trans_ne (by simp)) rfl (fun _ => trivial) ?_
    simp [Phase.got]
  · have settled := sound.settled number
    rw [Settled, holds] at settled
    exact read.turn number rfl (step_of_same holds) rfl settled quiet (by simp [Phase.got])
      (fun _ _ _ => rfl) (fun _ _ member => member) fun _ member => Or.inl member

/-- A request that returns gives its connection back, or closes it in a closed client. -/
theorem Sound.finish (sound : Sound poolSize pool) (number : Nat) :
    Sound poolSize (pool.finish number) := by
  unfold ConnectionPool.finish
  split
  swap
  · exact sound
  rename_i conn reused replies phase
  split_ifs with complete
  swap
  · exact sound
  have holds : (pool.requests number).phase.lease = .holding conn := by rw [phase, Phase.lease]
  have expects := sound.fits number
  rw [Fits, phase, Phase.Expects] at expects
  have known := sound.known number
  rw [phase] at known
  have lengths := expects.length_le
  rw [List.length_append, List.length_map, ownCommands, List.length_map, List.length_range] at lengths
  have quiet : pool.stream conn = [] := List.length_eq_zero_iff.mp (by omega)
  have own : replies.map ShardReply.sent = ownCommands number (pool.requests number) := by
    rw [quiet, List.append_nil] at expects
    refine expects.eq_of_length ?_
    rw [List.length_map, ownCommands, List.length_map, List.length_range, complete]
  by_cases isClosed : pool.closed = true
  · have shape : pool.leave number (some conn) true (.returned replies) =
        (pool.closeWriter conn).leave number none false (.returned replies) := by
      simp only [ConnectionPool.leave, isClosed]
      rfl
    rw [shape]
    exact (sound.closeWriter conn).leave (holds.trans_ne (by simp)) rfl (fun _ => own) known
  · have shape : pool.leave number (some conn) true (.returned replies) =
        ({ pool with idle := pool.idle ++ [conn] } : ConnectionPool).leave number none false
          (.returned replies) := by
      simp only [ConnectionPool.leave, isClosed]
      rfl
    rw [shape]
    have settled := sound.settled number
    rw [Settled, holds] at settled
    refine sound.turn number rfl (.giveBack number conn holds) rfl ?_ own known
      (fun _ _ _ => rfl) (fun _ _ member => member) ?_
    · rw [Settled, if_pos (by rfl)]
      simpa using settled
    · intro other member
      rcases List.mem_append.mp member with before | isNew
      · exact Or.inl before
      · rw [List.mem_singleton.mp isNew]
        exact Or.inr quiet

/-- Whatever fails, the slot is given back, and the connection is closed. -/
theorem Sound.fail (sound : Sound poolSize pool) (number : Nat) (failure : Failure) :
    Sound poolSize (pool.fail number failure) := by
  have abandon {conn : Nat} {phase : Phase}
      (holds : (pool.requests number).phase.lease = .holding conn) (isFree : phase.lease = .free)
      (expects : ∀ request stream, phase.Expects number request stream) (nothing : phase.got = []) :
      Sound poolSize ((pool.closeWriter conn).leave number none false phase) :=
    (sound.closeWriter conn).leave (holds.trans_ne (by simp)) isFree (fun _ => expects _ _)
      (by simp [nothing])
  have raises : ∀ request stream, Phase.raised.Expects number request stream :=
    fun _ _ => trivial
  have after (reused : Bool) : (Phase.afterFailure reused failure).lease = .free ∧
      (∀ request stream, (Phase.afterFailure reused failure).Expects number request stream) ∧
      (Phase.afterFailure reused failure).got = [] := by
    unfold Phase.afterFailure
    split_ifs <;> exact ⟨rfl, fun _ _ => trivial, rfl⟩
  unfold ConnectionPool.fail
  split
  · rename_i phase
    split_ifs
    swap
    · exact sound
    have isFree : (pool.requests number).phase.lease = .free := by rw [phase, Phase.lease]
    have settled := sound.settled number
    rw [Settled, isFree] at settled
    exact sound.turn number rfl (step_of_same isFree) rfl settled trivial (by simp [Phase.got])
      (fun _ _ _ => rfl) (fun _ _ member => member) fun _ member => Or.inl member
  · rename_i phase
    exact sound.leave (by rw [phase]; simp [Phase.lease]) rfl (fun _ => trivial)
      (by simp [Phase.got])
  · rename_i conn phase
    exact abandon (by rw [phase, Phase.lease]) rfl raises rfl
  · rename_i conn phase
    exact abandon (by rw [phase, Phase.lease]) rfl raises rfl
  · rename_i conn reused phase
    exact abandon (by rw [phase, Phase.lease]) (after reused).1 (after reused).2.1
      (after reused).2.2
  · rename_i conn reused replies phase
    exact abandon (by rw [phase, Phase.lease]) (after reused).1 (after reused).2.1
      (after reused).2.2
  · exact sound

/-- The shard answers in order. -/
theorem Sound.serve (sound : Sound poolSize pool) (conn : Nat) (value : Value) :
    Sound poolSize (pool.serve conn value) := by
  unfold ConnectionPool.serve
  dsimp only
  split
  swap
  · exact sound
  rename_i sent rest alive unanswered
  let answer : ShardReply := ⟨sent, value⟩
  let answered : Conn :=
    { pool.connections conn with
      unanswered := rest
      unread := (pool.connections conn).unread ++ [answer] }
  refine sound.frame .stay rfl (fun other => ?_) (fun _ member => member)
    (fun _ member => List.mem_append_left _ member) fun other reply member => ?_
  · show (pool.setConn conn answered).stream other <+: pool.stream other
    by_cases same : other = conn
    · rw [same, stream_setConn_self, stream, unanswered]
      simp [answered, answer]
    · rw [stream_setConn_of_ne same]
  · have got : reply ∈ ((pool.setConn conn answered).connections other).unread := member
    by_cases same : other = conn
    · rw [same, setConn_self] at got
      rw [same]
      rcases List.mem_append.mp got with before | isNew
      · exact Or.inl before
      · exact Or.inr (List.mem_append_right _ isNew)
    · rw [setConn_of_ne same] at got
      exact Or.inl got

/-- What is lost with a connection leaves a part of what was under way. -/
theorem Sound.drop (sound : Sound poolSize pool) (conn kept : Nat) :
    Sound poolSize (pool.drop conn kept) := by
  let lost : Conn :=
    { pool.connections conn with
      unanswered := []
      unread := (pool.connections conn).unread.take kept
      alive := false }
  refine sound.frame .stay rfl (fun other => ?_) (fun _ member => member) (fun _ member => member)
    fun other reply member => Or.inl ?_
  · show (pool.setConn conn lost).stream other <+: pool.stream other
    by_cases same : other = conn
    · rw [same, stream_setConn_self, stream, List.append_nil, List.map_take]
      exact (List.take_prefix ..).trans (List.prefix_append ..)
    · rw [stream_setConn_of_ne same]
  · exact unread_setConn lost (fun _ => List.mem_of_mem_take) member

theorem Sound.closeIdle (sound : Sound poolSize pool) : Sound poolSize pool.closeIdle := by
  unfold ConnectionPool.closeIdle
  split
  swap
  · exact sound
  rename_i conn _ last
  obtain ⟨rest, last⟩ := List.getLast?_eq_some_iff.mp last
  have dropped : pool.idle.dropLast = rest := by rw [last, List.dropLast_concat]
  rw [dropped]
  refine (sound.closeWriter conn).frame (.dropIdle rest conn last) rfl (fun _ => List.prefix_rfl)
    (fun other member => ?_) (fun _ member => member) fun _ _ member => Or.inl member
  rw [show (pool.closeWriter conn).idle = rest ++ [conn] from last]
  exact List.mem_append_left _ member

theorem Sound.request (sound : Sound poolSize pool) (number : Nat)
    (commands : List (List Arg)) : Sound poolSize (pool.request number commands) := by
  unfold ConnectionPool.request
  split
  swap
  · exact sound
  rename_i phase
  have isFree : (pool.requests number).phase.lease = .free := by rw [phase, Phase.lease]
  have settled := sound.settled number
  rw [Settled, isFree] at settled
  exact sound.turn number rfl (step_of_same isFree) rfl settled trivial (by simp [Phase.got])
    (fun _ _ _ => rfl) (fun _ _ member => member) fun _ member => Or.inl member

theorem Sound.step (sound : Sound poolSize pool) (step : PoolStep) :
    Sound poolSize (pool.step step) := by
  cases step with
  | request number commands => exact sound.request number commands
  | acquire number => exact sound.acquire number
  | connected number => exact sound.connected number
  | authWrite number => exact sound.authWrite number
  | authReply number => exact sound.authReply number
  | write number => exact sound.write number
  | readReply number => exact sound.readReply number
  | finish number => exact sound.finish number
  | fail number failure => exact sound.fail number failure
  | serve conn value => exact sound.serve conn value
  | drop conn kept => exact sound.drop conn kept
  | close =>
      exact sound.frame .stay rfl (fun _ => List.prefix_rfl) (fun _ member => member)
        (fun _ member => member) fun _ _ member => Or.inl member
  | closeIdle => exact sound.closeIdle

theorem sound_run (poolSize : Nat) (password : Option Text) (steps : List PoolStep) :
    Sound poolSize ((init poolSize password).run steps) := by
  induction steps using List.reverseRec with
  | nil => exact sound_init poolSize password
  | append_singleton steps step ih =>
      rw [run, List.foldl_append, List.foldl_cons, List.foldl_nil]
      exact Sound.step ih step

/-- In every run no connection is used by two requests or both used and idle, an idle
connection has nothing to answer and nothing to read, the idle connections and the slots in
use stay within the size of the pool, every slot taken is given back once, and a request
returns the replies to its own commands, in order. -/
theorem replies_stay_with_requests (poolSize : Nat) (password : Option Text)
    (steps : List PoolStep) :
    let pool := (init poolSize password).run steps
    (∀ number other conn, (pool.requests number).phase.lease = .holding conn →
      conn ∉ pool.idle ∧
        ((pool.requests other).phase.lease = .holding conn → number = other)) ∧
    (∀ conn ∈ pool.idle,
      (pool.connections conn).unanswered = [] ∧ (pool.connections conn).unread = []) ∧
    (∃ users : Finset Nat,
      (∀ number, number ∈ users ↔ (pool.requests number).phase.lease ≠ .free) ∧
      pool.idle.length + users.card ≤ poolSize ∧ pool.slots + users.card = poolSize ∧
      ∀ number, (pool.requests number).taken =
        (pool.requests number).given + if number ∈ users then 1 else 0) ∧
    ∀ number replies, (pool.requests number).phase = .returned replies →
      replies.map ShardReply.sent = ownCommands number (pool.requests number) ∧
        ∀ reply ∈ replies, reply ∈ pool.replies := by
  intro pool
  have sound : Sound poolSize pool := sound_run poolSize password steps
  refine ⟨fun number other conn holds => ?_, fun conn member => ?_, ?_, ?_⟩
  · exact ⟨sound.leased.apart number conn holds,
      fun also => sound.leased.exclusive number other conn holds also⟩
  · have quiet := List.append_eq_nil_iff.mp (sound.quiet conn member)
    exact ⟨quiet.2, List.map_eq_nil_iff.mp quiet.1⟩
  · obtain ⟨users, members, count⟩ := sound.leased.counted
    have enough := sound.leased.enough
    have slots : pool.slots + users.card = poolSize := count
    have idle : pool.idle.length ≤ pool.slots := enough
    refine ⟨users, members, by omega, slots, fun number => ?_⟩
    have settled := sound.settled number
    rw [Settled] at settled
    rw [settled]
    by_cases isFree : (pool.requests number).phase.lease = .free
    · rw [if_pos isFree, if_neg fun member => (members number).mp member isFree]
    · rw [if_neg isFree, if_pos ((members number).mpr isFree)]
  · intro number replies phase
    have own := sound.fits number
    have known := sound.known number
    rw [Fits, phase] at own
    rw [phase] at known
    exact ⟨own, known⟩

end Turns

end ConnectionPool

end MiniCache
