import MiniCache.PoolReplies
import Mathlib.Algebra.Order.BigOperators.Group.List

/-!
# Closing the cluster client

`ClusterClient` with the pools of its shards, which a request makes when it is the first to
its shard, and `close`, which goes through the dict of pools and waits for each connection
that it closes.  The dict may have grown by then, and so the iteration raises, with
connections idle in the pools behind.

When no pool is made while `close` waits, it returns, and every connection ends up closed: a
connection is idle, or in the hands of a request, or closed, and in a closed client a request
leaves none idle.
-/

namespace MiniCache

/-- Where `close` stands: not called; in `wait_closed` for a connection of the pool at some
position, with the size that the dict had when the iteration began; or at its end. -/
inductive Closing
  | pending
  | waiting (position size : Nat)
  | returned
  | raised
deriving DecidableEq

/-- `ClusterClient` with its dict of pools, in the order in which they were made. -/
structure ClusterPools where
  poolSize : Nat
  password : Option Text
  pools : List (Text × ConnectionPool)
  closing : Closing

/-- A turn of a request, of a shard or of `close`. -/
inductive ClientStep
  | request (node : Text) (number : Nat) (commands : List (List Arg))
  | turn (node : Text) (step : PoolStep)
  | close
  | waitClosed

/-- A turn that a pool takes by itself: the others are those of the client. -/
def PoolStep.Inner : PoolStep → Bool
  | .request .. | .close | .closeIdle => false
  | _ => true

namespace ClusterPools

def init (poolSize : Nat) (password : Option Text) : ClusterPools :=
  ⟨poolSize, password, [], .pending⟩

/-- `_closed`. -/
def closed (client : ClusterPools) : Bool := client.closing != .pending

/-- A turn of the pool of a shard. -/
def onPool (client : ClusterPools) (node : Text) (turn : ConnectionPool → ConnectionPool) :
    ClusterPools :=
  { client with pools := client.pools.map fun entry =>
      if entry.1 = node then (entry.1, turn entry.2) else entry }

/-- `_run` up to the slot: the first request to a shard makes its pool. -/
def request (client : ClusterPools) (node : Text) (number : Nat) (commands : List (List Arg)) :
    ClusterPools :=
  if node ∈ client.pools.map Prod.fst then
    client.onPool node fun pool => pool.request number commands
  else
    let pool : ConnectionPool :=
      { ConnectionPool.init client.poolSize client.password with closed := client.closed }
    { client with pools := client.pools ++ [(node, pool.request number commands)] }

/-- The loops of `close` up to the next `await`, with the pools that are left.  The iterator
looks at the size of the dict before it goes on. -/
def advance (client : ClusterPools) (size : Nat) :
    Nat → List (Text × ConnectionPool) → ClusterPools
  | _, [] => { client with closing := .returned }
  | position, (node, pool) :: rest =>
      if pool.idle ≠ [] then
        { client with
          pools := client.pools.set position (node, pool.closeIdle)
          closing := .waiting position size }
      else if client.pools.length ≠ size then { client with closing := .raised }
      else client.advance size (position + 1) rest

/-- `close` is called. -/
def close (client : ClusterPools) : ClusterPools :=
  match client.closing with
  | .pending =>
      let pools := client.pools.map fun entry => (entry.1, entry.2.step .close)
      { client with pools := pools }.advance pools.length 0 pools
  | _ => client

/-- `wait_closed` is over. -/
def waitClosed (client : ClusterPools) : ClusterPools :=
  match client.closing with
  | .waiting position size => client.advance size position (client.pools.drop position)
  | _ => client

def step (client : ClusterPools) : ClientStep → ClusterPools
  | .request node number commands => client.request node number commands
  | .turn node step => if step.Inner then client.onPool node (·.step step) else client
  | .close => client.close
  | .waitClosed => client.waitClosed

def run (client : ClusterPools) (steps : List ClientStep) : ClusterPools :=
  steps.foldl step client

end ClusterPools

/-- A request that has not begun or is over. -/
def Phase.Over : Phase → Prop
  | .absent | .returned _ | .raised => True
  | _ => False

namespace ConnectionPool

variable {pool next : ConnectionPool} {number conn : Nat}

/-- Every connection that was opened is closed, idle or in the hands of a request. -/
def Placed (pool : ConnectionPool) : Prop :=
  ∀ conn < pool.opened, (pool.connections conn).closed = true ∨ conn ∈ pool.idle ∨
    ∃ number, (pool.requests number).phase.lease = .holding conn

/-- What a turn of a pool does to the client: in a closed one no connection becomes idle. -/
structure Kept (pool next : ConnectionPool) : Prop where
  closed : next.closed = pool.closed
  idle : pool.closed = true → next.idle <+: pool.idle
  placed : pool.Placed → next.Placed

/-- Nothing is idle or in the hands of a request, so all is closed. -/
theorem Placed.closed_of_over (placed : pool.Placed) (idle : pool.idle = [])
    (finished : ∀ number, (pool.requests number).phase.Over) :
    ∀ conn < pool.opened, (pool.connections conn).closed = true := by
  intro conn old
  rcases placed conn old with closed | member | ⟨number, holds⟩
  · exact closed
  · rw [idle] at member
    cases member
  · have ended := finished number
    cases phase : (pool.requests number).phase
    all_goals rw [phase] at holds ended
    case absent | raised | returned => cases holds
    all_goals exact ended.elim

theorem Kept.refl (pool : ConnectionPool) : Kept pool pool :=
  ⟨rfl, fun _ => List.prefix_refl _, id⟩

theorem Kept.trans {last : ConnectionPool} (first : Kept pool next) (second : Kept next last) :
    Kept pool last where
  closed := second.closed.trans first.closed
  idle := fun isClosed =>
    (second.idle (first.closed.trans isClosed)).trans (first.idle isClosed)
  placed := second.placed ∘ first.placed

/-- A turn that leaves the requests alone and opens no writer. -/
theorem kept_frame (requests : next.requests = pool.requests) (closed : next.closed = pool.closed)
    (idle : next.idle = pool.idle) (opened : next.opened = pool.opened)
    (writers : ∀ conn, (pool.connections conn).closed = true →
      (next.connections conn).closed = true) : Kept pool next where
  closed := closed
  idle := fun _ => idle ▸ List.prefix_refl _
  placed := by
    intro placed conn old
    rw [requests, idle]
    exact (placed conn (opened ▸ old)).imp_left (writers conn)

theorem kept_setConn (connection : Conn)
    (closed : (pool.connections conn).closed = true → connection.closed = true) :
    Kept pool (pool.setConn conn connection) := by
  refine kept_frame rfl rfl rfl rfl fun other isClosed => ?_
  by_cases same : other = conn
  · subst same
    rw [setConn_self]
    exact closed isClosed
  · rw [setConn_of_ne same]
    exact isClosed

theorem kept_closeWriter (conn : Nat) : Kept pool (pool.closeWriter conn) :=
  kept_setConn _ fun _ => rfl

theorem kept_send (conn : Nat) (commands : List Sent) : Kept pool (pool.send conn commands) := by
  rcases pool.send_cases conn commands with same | same
  · rw [same]
    exact .refl pool
  · rw [same]
    exact kept_setConn _ id

theorem requests_send (conn : Nat) (commands : List Sent) :
    (pool.send conn commands).requests = pool.requests := by
  rcases pool.send_cases conn commands with same | same
  · rw [same]
  · rw [same]
    rfl

variable (number) in
/-- A turn of a request: what it had it keeps, or it is idle or closed. -/
theorem Placed.turn (placed : pool.Placed) {request : Request}
    (requests : next.requests = Function.update pool.requests number request)
    (opened : ∀ conn < next.opened, conn < pool.opened ∨ request.phase.lease = .holding conn)
    (writers : ∀ conn < pool.opened, (pool.connections conn).closed = true →
      (next.connections conn).closed = true)
    (idle : ∀ conn ∈ pool.idle, conn ∈ next.idle ∨ request.phase.lease = .holding conn)
    (held : ∀ conn, (pool.requests number).phase.lease = .holding conn →
      request.phase.lease = .holding conn ∨ conn ∈ next.idle ∨
        (next.connections conn).closed = true) : next.Placed := by
  have here : (next.requests number).phase = request.phase := by
    rw [requests, Function.update_self]
  have mine {conn : Nat} (holds : request.phase.lease = .holding conn) :
      ∃ number, (next.requests number).phase.lease = .holding conn :=
    ⟨number, by rw [here]; exact holds⟩
  intro conn below
  rcases opened conn below with old | new
  · rcases placed conn old with isClosed | member | ⟨holder, holds⟩
    · exact Or.inl (writers conn old isClosed)
    · exact Or.inr ((idle conn member).imp_right mine)
    · by_cases same : holder = number
      · subst same
        rcases held conn holds with keeps | stays | isClosed
        · exact Or.inr (Or.inr (mine keeps))
        · exact Or.inr (Or.inl stays)
        · exact Or.inl isClosed
      · refine Or.inr (Or.inr ⟨holder, ?_⟩)
        rw [requests, Function.update_of_ne same]
        exact holds
  · exact Or.inr (Or.inr (mine new))

theorem kept_setRequest {request : Request}
    (same : request.phase.lease = (pool.requests number).phase.lease) :
    Kept pool (pool.setRequest number request) where
  closed := rfl
  idle := fun _ => List.prefix_refl _
  placed := fun placed => placed.turn number rfl (fun _ old => Or.inl old) (fun _ _ closed => closed)
    (fun _ member => Or.inl member) fun _ holds => Or.inl (same.trans holds)

theorem kept_setPhase {phase : Phase} (same : phase.lease = (pool.requests number).phase.lease) :
    Kept pool (pool.setPhase number phase) :=
  kept_setRequest same

/-- A request that is done leaves nothing behind but what is idle or closed. -/
theorem kept_leave_none (ok : Bool) (phase : Phase)
    (held : ∀ conn, (pool.requests number).phase.lease = .holding conn →
      conn ∈ pool.idle ∨ (pool.connections conn).closed = true) :
    Kept pool (pool.leave number none ok phase) where
  closed := rfl
  idle := fun _ => List.prefix_refl _
  placed := fun placed => placed.turn number rfl (fun _ old => Or.inl old)
    (fun _ _ closed => closed) (fun _ member => Or.inl member)
    fun conn holds => Or.inr (held conn holds)

/-- Its connection becomes idle in an open client, and is closed otherwise. -/
theorem kept_leave (ok : Bool) (phase : Phase)
    (holds : (pool.requests number).phase.lease = .holding conn) :
    Kept pool (pool.leave number (some conn) ok phase) := by
  have only {other : Nat} (also : (pool.requests number).phase.lease = .holding other) :
      other = conn := by
    rw [holds] at also
    cases also
    rfl
  cases goes : ok && !pool.closed with
  | true =>
      have isOpen : pool.closed = false := by
        rw [Bool.and_eq_true, Bool.not_eq_true'] at goes
        exact goes.2
      have idle : Kept pool { pool with idle := pool.idle ++ [conn] } := by
        refine ⟨rfl, fun isClosed => ?_, fun placed other old => ?_⟩
        · rw [isOpen] at isClosed
          cases isClosed
        · exact (placed other old).imp id (Or.imp_left (List.mem_append_left _))
      have same : pool.leave number (some conn) ok phase =
          { pool with idle := pool.idle ++ [conn] }.leave number none ok phase := by
        simp only [leave, goes, if_true]
      rw [same]
      refine idle.trans (kept_leave_none ok phase fun other also => Or.inl ?_)
      rw [only also]
      exact List.mem_append_right _ (List.mem_singleton_self _)
  | false =>
      have same : pool.leave number (some conn) ok phase =
          (pool.closeWriter conn).leave number none ok phase := by
        simp only [leave, goes, Bool.false_eq_true, if_false]
      rw [same]
      refine (kept_closeWriter conn).trans (kept_leave_none ok phase fun other also => Or.inr ?_)
      rw [only also, closeWriter, setConn_self]

section Steps

theorem kept_request (commands : List (List Arg)) : Kept pool (pool.request number commands) := by
  unfold ConnectionPool.request
  split
  · rename_i phase
    refine kept_setRequest ?_
    rw [phase]
    rfl
  · exact .refl pool

theorem kept_acquire (number : Nat) : Kept pool (pool.acquire number) := by
  unfold ConnectionPool.acquire
  dsimp only
  split
  swap
  · exact .refl pool
  rename_i phase
  have none (conn : Nat) : (pool.requests number).phase.lease ≠ .holding conn := by
    rw [phase]
    nofun
  split_ifs
  swap
  · exact .refl pool
  split
  · rename_i conn last
    refine ⟨rfl, fun _ => List.dropLast_prefix _, fun placed => ?_⟩
    refine placed.turn number rfl (fun _ old => Or.inl old) (fun _ _ closed => closed)
      (fun other member => ?_) fun other holds => (none other holds).elim
    obtain ⟨rest, split⟩ := List.getLast?_eq_some_iff.mp last
    have dropped : pool.idle.dropLast = rest := by rw [split, List.dropLast_concat]
    rw [split] at member
    rcases List.mem_append.mp member with before | isLast
    · exact Or.inl (dropped ▸ before)
    · rw [List.mem_singleton.mp isLast]
      exact Or.inr rfl
  · refine ⟨rfl, fun _ => List.prefix_refl _, fun placed => ?_⟩
    exact placed.turn number rfl (fun _ old => Or.inl old) (fun _ _ closed => closed)
      (fun _ member => Or.inl member) fun other holds => (none other holds).elim

theorem kept_connected (number : Nat) : Kept pool (pool.connected number) := by
  unfold ConnectionPool.connected
  split
  swap
  · exact .refl pool
  rename_i phase
  refine ⟨rfl, fun _ => List.prefix_refl _, fun placed => ?_⟩
  refine placed.turn number rfl (fun conn below => ?_) (fun conn old closed => ?_)
    (fun _ member => Or.inl member) fun conn holds => ?_
  · rcases Nat.lt_succ_iff_lt_or_eq.mp below with old | rfl
    · exact Or.inl old
    · refine Or.inr ?_
      dsimp only
      split_ifs <;> rfl
  · exact (congrArg Conn.closed (setConn_of_ne old.ne _)).trans closed
  · rw [phase] at holds
    cases holds

theorem kept_authWrite (number : Nat) : Kept pool (pool.authWrite number) := by
  unfold ConnectionPool.authWrite
  split
  · rename_i conn phase
    refine (kept_send conn _).trans (kept_setPhase ?_)
    rw [requests_send, phase]
    rfl
  · exact .refl pool

theorem kept_authReply (number : Nat) : Kept pool (pool.authReply number) := by
  unfold ConnectionPool.authReply
  split
  swap
  · exact .refl pool
  rename_i conn phase
  dsimp only
  split
  · exact .refl pool
  · rename_i reply rest unread
    have read : Kept pool (pool.setConn conn { pool.connections conn with unread := rest }) :=
      kept_setConn _ id
    split_ifs
    · refine (read.trans (kept_closeWriter conn)).trans
        (kept_leave_none false .raised fun other holds => Or.inr ?_)
      have same : (pool.requests number).phase.lease = .holding other := holds
      rw [phase] at same
      cases same
      rw [closeWriter, setConn_self]
    · refine read.trans (kept_setPhase ?_)
      rw [show (pool.setConn conn _).requests = pool.requests from rfl, phase]
      rfl

theorem kept_write (number : Nat) : Kept pool (pool.write number) := by
  unfold ConnectionPool.write
  split
  · rename_i conn reused phase
    refine (kept_send conn _).trans (kept_setPhase ?_)
    rw [requests_send, phase]
    rfl
  · exact .refl pool

theorem kept_readReply (number : Nat) : Kept pool (pool.readReply number) := by
  unfold ConnectionPool.readReply
  split
  swap
  · exact .refl pool
  rename_i conn reused replies phase
  dsimp only
  split
  · exact .refl pool
  · rename_i reply rest unread
    split_ifs
    · have read : Kept pool (pool.setConn conn { pool.connections conn with unread := rest }) :=
        kept_setConn _ id
      refine read.trans (kept_setPhase ?_)
      rw [show (pool.setConn conn _).requests = pool.requests from rfl, phase]
      rfl
    · exact .refl pool

theorem kept_finish (number : Nat) : Kept pool (pool.finish number) := by
  unfold ConnectionPool.finish
  split
  swap
  · exact .refl pool
  rename_i conn reused replies phase
  split_ifs
  · exact kept_leave true _ (by rw [phase]; rfl)
  · exact .refl pool

theorem kept_fail (number : Nat) (failure : Failure) : Kept pool (pool.fail number failure) := by
  have failed {conn : Nat} {phase : Phase} (here : (pool.requests number).phase = phase)
      (holds : phase.lease = .holding conn) :
      Kept pool ((pool.closeWriter conn).leave number none false .raised) := by
    rw [← leave_false]
    exact kept_leave false .raised (here ▸ holds)
  unfold ConnectionPool.fail
  split
  · rename_i phase
    split_ifs
    · refine kept_setPhase ?_
      rw [phase]
      rfl
    · exact .refl pool
  · rename_i phase
    refine kept_leave_none false .raised fun conn holds => ?_
    rw [phase] at holds
    cases holds
  · rename_i conn phase
    exact failed phase rfl
  · rename_i conn phase
    exact failed phase rfl
  · rename_i conn reused phase
    exact kept_leave false _ (by rw [phase]; rfl)
  · rename_i conn reused replies phase
    exact kept_leave false _ (by rw [phase]; rfl)
  · exact .refl pool

theorem kept_serve (conn : Nat) (value : Value) : Kept pool (pool.serve conn value) := by
  unfold serve
  dsimp only
  split
  · rename_i sent rest alive unanswered
    have answered := @kept_setConn pool conn { pool.connections conn with
      unanswered := rest
      unread := (pool.connections conn).unread ++ [⟨sent, value⟩] } id
    exact ⟨answered.closed, answered.idle, answered.placed⟩
  · exact .refl pool

theorem kept_drop (conn kept : Nat) : Kept pool (pool.drop conn kept) := kept_setConn _ id

/-- `close` takes the last of the idle connections and closes it. -/
theorem kept_closeIdle : Kept pool pool.closeIdle := by
  unfold closeIdle
  split
  swap
  · exact .refl pool
  rename_i conn isClosed last
  refine ⟨rfl, fun _ => List.dropLast_prefix _, fun placed other old => ?_⟩
  obtain ⟨rest, split⟩ := List.getLast?_eq_some_iff.mp last
  have dropped : pool.idle.dropLast = rest := by rw [split, List.dropLast_concat]
  rcases (kept_closeWriter conn).placed placed other old with closed | member | held
  · exact Or.inl closed
  · rw [show (pool.closeWriter conn).idle = pool.idle from rfl, split] at member
    rcases List.mem_append.mp member with before | isLast
    · exact Or.inr (Or.inl (dropped ▸ before))
    · obtain rfl := List.mem_singleton.mp isLast
      refine Or.inl ?_
      show ((pool.setConn other _).connections other).closed = true
      rw [setConn_self]
  · exact Or.inr (Or.inr held)

theorem kept_step (step : PoolStep) (inner : step.Inner = true) : Kept pool (pool.step step) := by
  cases step with
  | request | close | closeIdle => cases inner
  | acquire number => exact kept_acquire number
  | connected number => exact kept_connected number
  | authWrite number => exact kept_authWrite number
  | authReply number => exact kept_authReply number
  | write number => exact kept_write number
  | readReply number => exact kept_readReply number
  | finish number => exact kept_finish number
  | fail number failure => exact kept_fail number failure
  | serve conn value => exact kept_serve conn value
  | drop conn kept => exact kept_drop conn kept

end Steps

end ConnectionPool

/-- While `close` waits, only shards that have a pool are asked. -/
def ClientStep.Careful (client : ClusterPools) : ClientStep → Prop
  | .request node _ _ =>
      ∀ position size, client.closing = .waiting position size → node ∈ client.pools.map Prod.fst
  | _ => True

def ClientStep.isWaitClosed : ClientStep → Bool
  | .waitClosed => true
  | _ => false

namespace ClusterPools

open ConnectionPool (Kept Placed)

variable {client : ClusterPools}

/-- No pool is made in a run while `close` waits. -/
def Careful : ClusterPools → List ClientStep → Prop
  | _, [] => True
  | client, step :: steps => step.Careful client ∧ Careful (client.step step) steps

/-- How many connections are idle. -/
def idleCount (client : ClusterPools) : Nat :=
  (client.pools.map fun entry => entry.2.idle.length).sum

/-- Closing leaks nothing: `close` does not raise; once called it returns, when as many of
its waits are over as connections are idle, and one more; and when it has returned and no
request is under way, no connection is idle or open. -/
structure Clean (client : ClusterPools) : Prop where
  quiet : client.closing ≠ .raised
  returns : client.closing ≠ .pending → ∀ later, client.Careful later →
    client.idleCount < later.countP ClientStep.isWaitClosed →
      (client.run later).closing = .returned
  clean : client.closing = .returned →
    (∀ entry ∈ client.pools, ∀ number, (entry.2.requests number).phase.Over) →
      ∀ entry ∈ client.pools, entry.2.idle = [] ∧
        ∀ conn < entry.2.opened, (entry.2.connections conn).closed = true

/-- How far `close` has come: the pools behind it have nothing idle. -/
def Reached (client : ClusterPools) : Closing → Prop
  | .pending => True
  | .waiting position size => client.pools.length = size ∧ ∃ before rest,
      client.pools = before ++ rest ∧ before.length = position ∧
        ∀ entry ∈ before, entry.2.idle = []
  | .returned => ∀ entry ∈ client.pools, entry.2.idle = []
  | .raised => False

structure Tended (client : ClusterPools) : Prop where
  closed : ∀ entry ∈ client.pools, entry.2.closed = client.closed
  placed : ∀ entry ∈ client.pools, entry.2.Placed
  reached : client.Reached client.closing

theorem tended_init (poolSize : Nat) (password : Option Text) :
    Tended (init poolSize password) := ⟨nofun, nofun, trivial⟩

theorem closed_of_ne (called : client.closing ≠ .pending) : client.closed = true := by
  rw [closed, bne_iff_ne]
  exact called

section Turns

/-- The pools that are left of a client whose pools are all closed. -/
theorem Tended.advance {size : Nat} {before rest : List (Text × ConnectionPool)}
    (closed : ∀ entry ∈ client.pools, entry.2.closed = true)
    (placed : ∀ entry ∈ client.pools, entry.2.Placed) (same : client.pools.length = size)
    (split : client.pools = before ++ rest) (visited : ∀ entry ∈ before, entry.2.idle = []) :
    Tended (client.advance size before.length rest) ∧
      ((client.advance size before.length rest).closing = .returned ∨
        (client.advance size before.length rest).closing ≠ .pending ∧
          (client.advance size before.length rest).idleCount + 1 = client.idleCount) := by
  induction rest generalizing before with
  | nil =>
      rw [List.append_nil] at split
      exact ⟨⟨closed, placed, split ▸ visited⟩, Or.inl rfl⟩
  | cons entry rest ih =>
      obtain ⟨node, pool⟩ := entry
      have member : (node, pool) ∈ client.pools := by simp [split]
      unfold ClusterPools.advance
      split_ifs with idle grown
      · have set : client.pools.set before.length (node, pool.closeIdle) =
            before ++ (node, pool.closeIdle) :: rest := by
          rw [split, List.set_append_right _ _ (Nat.le_refl _), Nat.sub_self, List.set_cons_zero]
        have kept : Kept pool pool.closeIdle := ConnectionPool.kept_closeIdle
        refine ⟨⟨fun other here => ?_, fun other here => ?_, ?_⟩, Or.inr ⟨nofun, ?_⟩⟩
        · rcases List.mem_or_eq_of_mem_set here with old | rfl
          · exact closed other old
          · exact kept.closed.trans (closed _ member)
        · rcases List.mem_or_eq_of_mem_set here with old | rfl
          · exact placed other old
          · exact kept.placed (placed _ member)
        · exact ⟨(List.length_set ..).trans same, before, _, set, rfl, visited⟩
        · have fewer : pool.closeIdle.idle.length + 1 = pool.idle.length := by
            have last := List.getLast?_eq_some_getLast idle
            have isClosed : pool.closed = true := closed _ member
            simp only [ConnectionPool.closeIdle, isClosed, last, List.length_dropLast]
            have positive := List.length_pos_iff.mpr idle
            omega
          unfold idleCount
          rw [set, split]
          simp only [List.map_append, List.map_cons, List.sum_append, List.sum_cons]
          omega
      · exact absurd same grown
      · have next := @ih (before ++ [(node, pool)]) (by rw [split, List.append_assoc]; rfl) (by
          intro other here
          rcases List.mem_append.mp here with old | new
          · exact visited other old
          · rw [List.mem_singleton.mp new]
            exact not_not.mp idle)
        rwa [List.length_append, List.length_singleton] at next

theorem Tended.close (tended : Tended client) : Tended client.close := by
  cases closing : client.closing with
  | pending =>
      simp only [ClusterPools.close, closing]
      refine (@Tended.advance _ _ [] _ (fun entry member => ?_) (fun entry member => ?_) rfl rfl
        nofun).1
      · obtain ⟨old, -, rfl⟩ := List.mem_map.mp member
        rfl
      · obtain ⟨old, here, rfl⟩ := List.mem_map.mp member
        exact tended.placed old here
  | waiting | returned | raised => simpa only [ClusterPools.close, closing] using tended

/-- When a wait is over, `close` returns or one connection fewer is idle. -/
theorem Tended.waitClosed (tended : Tended client) :
    Tended client.waitClosed ∧ ∀ position size, client.closing = .waiting position size →
      client.waitClosed.closing = .returned ∨ client.waitClosed.closing ≠ .pending ∧
        client.waitClosed.idleCount + 1 = client.idleCount := by
  cases closing : client.closing with
  | pending | returned | raised =>
      exact ⟨by simpa only [ClusterPools.waitClosed, closing] using tended, nofun⟩
  | waiting position size =>
      have reached := tended.reached
      rw [closing] at reached
      obtain ⟨same, before, rest, split, rfl, visited⟩ := reached
      have closed : client.closed = true := closed_of_ne (by rw [closing]; nofun)
      have dropped : client.pools.drop before.length = rest := by rw [split, List.drop_left]
      have advanced := Tended.advance (fun entry member => (tended.closed entry member).trans closed)
        tended.placed same split visited
      simp only [ClusterPools.waitClosed, closing, dropped]
      exact ⟨advanced.1, fun _ _ _ => advanced.2⟩

/-- A turn of a pool, where a closed client gets no new idle connection. -/
theorem Tended.onPool (tended : Tended client) (node : Text)
    {turn : ConnectionPool → ConnectionPool} (kept : ∀ pool, Kept pool (turn pool)) :
    Tended (client.onPool node turn) ∧
      (client.closed = true → (client.onPool node turn).idleCount ≤ client.idleCount) := by
  -- what the turn makes of an entry, whether it is the pool of the shard or not
  set change : Text × ConnectionPool → Text × ConnectionPool := fun entry =>
    if entry.1 = node then (entry.1, turn entry.2) else entry with change_eq
  have pools : (client.onPool node turn).pools = client.pools.map change := rfl
  have keeps (entry : Text × ConnectionPool) : Kept entry.2 (change entry).2 := by
    simp only [change_eq]
    split_ifs
    · exact kept entry.2
    · exact .refl entry.2
  have empty {entry : Text × ConnectionPool} (closed : entry.2.closed = true)
      (idle : entry.2.idle = []) : (change entry).2.idle = [] := by
    have shorter := (keeps entry).idle closed
    rw [idle] at shorter
    exact List.prefix_nil.mp shorter
  refine ⟨⟨fun entry member => ?_, fun entry member => ?_, ?_⟩, fun closed => ?_⟩
  · obtain ⟨old, here, rfl⟩ := List.mem_map.mp member
    exact (keeps old).closed.trans (tended.closed old here)
  · obtain ⟨old, here, rfl⟩ := List.mem_map.mp member
    exact (keeps old).placed (tended.placed old here)
  · have reached := tended.reached
    rw [show (client.onPool node turn).closing = client.closing from rfl]
    cases closing : client.closing with
    | pending => trivial
    | raised =>
        rw [closing] at reached
        exact reached
    | returned =>
        rw [closing] at reached
        have closed : client.closed = true := closed_of_ne (by rw [closing]; nofun)
        intro entry member
        obtain ⟨old, here, rfl⟩ := List.mem_map.mp member
        exact empty ((tended.closed old here).trans closed) (reached old here)
    | waiting position size =>
        rw [closing] at reached
        have closed : client.closed = true := closed_of_ne (by rw [closing]; nofun)
        obtain ⟨same, before, rest, split, here, visited⟩ := reached
        refine ⟨by rw [pools, List.length_map, same], before.map change, rest.map change,
          by rw [pools, split, List.map_append], by rw [List.length_map, here], ?_⟩
        intro entry member
        obtain ⟨old, inside, rfl⟩ := List.mem_map.mp member
        have among : old ∈ client.pools := split ▸ List.mem_append_left _ inside
        exact empty ((tended.closed old among).trans closed) (visited old inside)
  · rw [idleCount, pools, List.map_map]
    refine List.sum_le_sum fun entry member => ?_
    exact ((keeps entry).idle ((tended.closed entry member).trans closed)).length_le

/-- The first request to a shard makes a pool that has nothing idle. -/
theorem Tended.request (tended : Tended client) {node : Text} {number : Nat}
    {commands : List (List Arg)} (careful : (ClientStep.request node number commands).Careful client) :
    Tended (client.request node number commands) ∧ (client.closed = true →
      (client.request node number commands).idleCount ≤ client.idleCount) := by
  unfold ClusterPools.request
  split_ifs with known
  · exact tended.onPool node fun pool => ConnectionPool.kept_request commands
  · dsimp only
    set pool : ConnectionPool := { ConnectionPool.init client.poolSize client.password with
      closed := client.closed }.request number commands with made
    have kept : Kept { ConnectionPool.init client.poolSize client.password with
        closed := client.closed } pool := ConnectionPool.kept_request commands
    have closed : pool.closed = client.closed := kept.closed
    have idle : pool.idle = [] := rfl
    have only {entry : Text × ConnectionPool} (member : entry ∈ client.pools ++ [(node, pool)]) :
        entry ∈ client.pools ∨ entry = (node, pool) := by
      simpa only [List.mem_append, List.mem_singleton] using member
    refine ⟨⟨fun entry member => ?_, fun entry member => ?_, ?_⟩, fun _ => ?_⟩
    · rcases only member with old | rfl
      · exact tended.closed entry old
      · exact closed
    · rcases only member with old | rfl
      · exact tended.placed entry old
      · exact kept.placed nofun
    · have reached := tended.reached
      dsimp only
      cases closing : client.closing with
      | pending => trivial
      | raised =>
          rw [closing] at reached
          exact reached
      | waiting position size => exact absurd (careful position size closing) known
      | returned =>
          rw [closing] at reached
          intro entry member
          rcases only member with old | rfl
          · exact reached entry old
          · exact idle
    · simp only [idleCount, List.map_append, List.sum_append, List.map_cons, List.map_nil,
        List.sum_cons, List.sum_nil, idle, List.length_nil, Nat.add_zero]
      exact Nat.le_refl _

theorem Tended.step (tended : Tended client) {step : ClientStep} (careful : step.Careful client) :
    Tended (client.step step) := by
  cases step with
  | request node number commands => exact (tended.request careful).1
  | close => exact tended.close
  | waitClosed => exact tended.waitClosed.1
  | turn node step =>
      simp only [ClusterPools.step]
      split_ifs with inner
      · exact (tended.onPool node fun pool => ConnectionPool.kept_step step inner).1
      · exact tended

theorem Tended.run (tended : Tended client) {steps : List ClientStep}
    (careful : client.Careful steps) : Tended (client.run steps) := by
  induction steps generalizing client with
  | nil => exact tended
  | cons step steps ih => exact ih (tended.step careful.1) careful.2

/-- After `close` was called, no turn makes a connection idle, and the end of a wait makes one
fewer idle or ends `close`. -/
theorem Tended.later (tended : Tended client) (called : client.closing ≠ .pending)
    {step : ClientStep} (careful : step.Careful client) :
    (client.step step).closing = .returned ∨ (client.step step).closing ≠ .pending ∧
      (client.step step).idleCount + (if step.isWaitClosed then 1 else 0) ≤ client.idleCount := by
  have closed := closed_of_ne called
  cases step with
  | request node number commands =>
      refine Or.inr ⟨?_, (tended.request careful).2 closed⟩
      simp only [ClusterPools.step, ClusterPools.request]
      split_ifs <;> exact called
  | turn node step =>
      refine Or.inr ?_
      show (if step.Inner then client.onPool node (·.step step) else client).closing ≠ .pending ∧
        (if step.Inner then client.onPool node (·.step step) else client).idleCount ≤ client.idleCount
      split_ifs with inner
      · exact ⟨called, (tended.onPool node fun pool => ConnectionPool.kept_step step inner).2 closed⟩
      · exact ⟨called, Nat.le_refl _⟩
  | close =>
      have same : client.step .close = client := by
        show client.close = client
        unfold ClusterPools.close
        split
        · rename_i pending
          exact (called pending).elim
        · rfl
      rw [same]
      exact Or.inr ⟨called, Nat.le_refl _⟩
  | waitClosed =>
      cases closing : client.closing with
      | pending => exact (called closing).elim
      | raised =>
          have reached := tended.reached
          rw [closing] at reached
          exact reached.elim
      | returned => exact Or.inl (by simp only [ClusterPools.step, ClusterPools.waitClosed, closing])
      | waiting position size =>
          exact (tended.waitClosed.2 position size closing).imp_right fun fewer =>
            ⟨fewer.1, fewer.2.le⟩

/-- What has returned stays so. -/
theorem returned_run (returned : client.closing = .returned) (steps : List ClientStep) :
    (client.run steps).closing = .returned := by
  induction steps generalizing client with
  | nil => exact returned
  | cons step steps ih =>
      refine ih ?_
      cases step with
      | request node number commands =>
          simp only [ClusterPools.step, request]
          split_ifs <;> exact returned
      | turn node step =>
          simp only [ClusterPools.step]
          split_ifs <;> exact returned
      | close => simp only [ClusterPools.step, close, returned]
      | waitClosed => simp only [ClusterPools.step, waitClosed, returned]

theorem Tended.returns (tended : Tended client) (called : client.closing ≠ .pending)
    {later : List ClientStep} (careful : client.Careful later)
    (enough : client.idleCount < later.countP ClientStep.isWaitClosed) :
    (client.run later).closing = .returned := by
  induction later generalizing client with
  | nil => exact (Nat.not_lt_zero _ enough).elim
  | cons step later ih =>
      rcases tended.later called careful.1 with returned | ⟨stays, fewer⟩
      · exact returned_run returned later
      · refine ih (tended.step careful.1) stays careful.2 ?_
        rw [List.countP_cons] at enough
        omega

end Turns

/-- In every run in which no pool is made while `close` waits, closing leaks nothing. -/
theorem close_leaks_nothing (poolSize : Nat) (password : Option Text) (steps : List ClientStep)
    (careful : (init poolSize password).Careful steps) :
    Clean ((init poolSize password).run steps) := by
  have tended := (tended_init poolSize password).run careful
  refine ⟨fun raised => ?_, fun called later also enough => tended.returns called also enough,
    fun returned finished entry member => ?_⟩
  · have reached := tended.reached
    rw [raised] at reached
    exact reached
  · have reached := tended.reached
    rw [returned] at reached
    exact ⟨reached entry member,
      (tended.placed entry member).closed_of_over (reached entry member)
        (finished entry member)⟩

/-- The turns of a request that is answered on a new connection. -/
def answered (node : Text) (number conn : Nat) : List ClientStep :=
  [.turn node (.acquire number), .turn node (.connected number), .turn node (.write number),
    .turn node (.serve conn (.int 1)), .turn node (.readReply number), .turn node (.finish number)]

/-- A request for the number of keys. -/
def askSize (node : Text) (number : Nat) : ClientStep :=
  .request node number [[.str "DBSIZE".toList]]

/-- A request to a shard is answered, another begins while the client waits for the first
connection, and one to a new shard when it is closed. -/
def closedInTime : List ClientStep :=
  askSize ['a'] 0 :: answered ['a'] 0 0 ++
    [.close, askSize ['a'] 1, .waitClosed, askSize ['b'] 0] ++ answered ['a'] 1 1 ++
      answered ['b'] 0 0

theorem close_leaks_nothing_closedInTime :
    ((init 1 none).run closedInTime).closing = .returned ∧
      Clean ((init 1 none).run closedInTime) := by
  refine ⟨by decide +kernel, close_leaks_nothing 1 none closedInTime ?_⟩
  have known : ['a'] ∈ (((init 1 none).run (askSize ['a'] 0 :: answered ['a'] 0 0)).step
      .close).pools.map Prod.fst := by decide +kernel
  have returned : ((init 1 none).run (askSize ['a'] 0 :: answered ['a'] 0 0 ++
      [.close, askSize ['a'] 1, .waitClosed])).closing = .returned := by decide +kernel
  refine ⟨nofun, trivial, trivial, trivial, trivial, trivial, trivial, trivial,
    fun _ _ _ => known, trivial, fun _ _ waiting => ?_, trivial, trivial, trivial, trivial, trivial,
    trivial, trivial, trivial, trivial, trivial, trivial, trivial, trivial⟩
  cases returned.symm.trans waiting

/-- Two shards have an idle connection each.  While the client waits for the first one, a
request goes to a third shard. -/
def closedTooEarly : List ClientStep :=
  askSize ['a'] 0 :: answered ['a'] 0 0 ++ askSize ['c'] 0 :: answered ['c'] 0 0 ++
    [.close, askSize ['b'] 0, .waitClosed] ++ answered ['b'] 0 0

/-- `close` raises, and with no request under way a connection stays idle and open. -/
theorem not_clean_closedTooEarly :
    let client := (init 1 none).run closedTooEarly
    client.closing = .raised ∧
      (∀ entry ∈ client.pools, (entry.2.requests 0).phase.lease = .free ∧ entry.2.slots = 1) ∧
      (∃ entry ∈ client.pools, entry.1 = ['c'] ∧ entry.2.idle = [0] ∧
        (entry.2.connections 0).closed = false) ∧ ¬ Clean client := by
  intro client
  have raised : client.closing = .raised := by decide +kernel
  refine ⟨raised, by decide +kernel, by decide +kernel, fun clean => clean.quiet raised⟩

end ClusterPools

end MiniCache
