import MiniCache.PoolReplies

/-!
# How often a command is applied

A request writes each of its commands once for every connection that it tries, and the
shard applies what it reads from a connection once.  A request tries another connection
only after a reused one broke; then the shard may apply a command again that it had
applied, or was about to apply, on the one that broke.
-/

namespace MiniCache

/-- The request of a command. -/
def Sent.request : Sent → Nat
  | .auth request _ | .command request _ _ => request

/-- How far a request is when it has written a command. -/
def Sent.progress : Sent → Nat
  | .auth _ attempt => 3 * attempt + 1
  | .command _ attempt _ => 3 * attempt + 2

/-- What a request has written in a phase: nothing, an `AUTH`, or its commands. -/
def Phase.stage : Phase → Nat
  | .absent | .connecting | .authWriting _ => 0
  | .authReading _ | .writing _ _ => 1
  | .acquiring | .reading _ _ _ | .returned _ | .raised => 2

def Request.progress (request : Request) : Nat := 3 * request.attempt + request.phase.stage

/-- A phase in which a request has written its commands and does not write them again,
unless the connection breaks. -/
def Phase.Lasting : Phase → Prop
  | .reading _ _ _ | .returned _ | .raised => True
  | _ => False

/-- A request tries again: the reused connection it writes to or reads from breaks. -/
def Phase.Reusing : Phase → Prop
  | .writing _ reused | .reading _ reused _ => reused = true
  | _ => False

/-- What a turn makes of a request. -/
inductive Moves (step : PoolStep) (number : Nat) (old new : Request) : Prop
  | on (attempt : new.attempt = old.attempt) (stage : old.phase.stage ≤ new.phase.stage)
      (lasting : old.phase.Lasting → new.phase.Lasting)
  | entered (phase : old.phase = .acquiring) (attempt : new.attempt = old.attempt + 1)
  | retried (step : step = .fail number .broken) (reusing : old.phase.Reusing)
      (attempt : new.attempt = old.attempt) (phase : new.phase = .acquiring)

theorem Moves.progress {step : PoolStep} {number : Nat} {old new : Request}
    (moves : Moves step number old new) : old.progress ≤ new.progress := by
  unfold Request.progress
  have bounded : old.phase.stage ≤ 2 := by cases old.phase <;> simp [Phase.stage]
  cases moves with
  | on attempt stage _ => omega
  | entered phase attempt =>
      rw [phase, attempt, Phase.stage]
      omega
  | retried _ _ attempt phase =>
      rw [attempt, phase, Phase.stage]
      omega

theorem Moves.refl (step : PoolStep) (number : Nat) (request : Request) :
    Moves step number request request :=
  .on rfl (Nat.le_refl _) id

namespace ConnectionPool

variable {pool next : ConnectionPool} {step : PoolStep}

/-- The commands that the shard has applied, in order. -/
def applied (pool : ConnectionPool) : List Sent := pool.replies.map ShardReply.sent

/-- What a turn makes of the commands on the connections. -/
inductive Effect (step : PoolStep) (pool next : ConnectionPool) : Prop
  | quiet (replies : next.replies = pool.replies)
      (unanswered : ∀ conn, (next.connections conn).unanswered.Sublist
        (pool.connections conn).unanswered)
      (moves : ∀ number, Moves step number (pool.requests number) (next.requests number))
  | sent (number conn : Nat) (commands : List Sent) (replies : next.replies = pool.replies)
      (unanswered : ∀ other, (next.connections other).unanswered =
        (pool.connections other).unanswered ++ if other = conn then commands else [])
      (moves : ∀ number, Moves step number (pool.requests number) (next.requests number))
      (nodup : commands.Nodup)
      (own : ∀ item ∈ commands, item.request = number ∧
        item.progress = (next.requests number).progress ∧
        (pool.requests number).progress < item.progress)
      (writes : (next.requests number).phase ≠ .acquiring)
  | served (conn : Nat) (sent : Sent) (rest : List Sent) (value : Value)
      (before : (pool.connections conn).unanswered = sent :: rest)
      (replies : next.replies = pool.replies ++ [⟨sent, value⟩])
      (unanswered : ∀ other, (next.connections other).unanswered =
        if other = conn then rest else (pool.connections other).unanswered)
      (requests : next.requests = pool.requests)

section Effects

theorem Effect.stay (step : PoolStep) (pool : ConnectionPool) : Effect step pool pool :=
  .quiet rfl (fun _ => List.Sublist.refl _) fun _ => .refl ..

theorem moves_of_update {number : Nat} {request : Request}
    (requests : next.requests = Function.update pool.requests number request)
    (own : Moves step number (pool.requests number) request) (other : Nat) :
    Moves step other (pool.requests other) (next.requests other) := by
  rw [requests]
  by_cases same : other = number
  · rw [same, Function.update_self]
    exact own
  · rw [Function.update_of_ne same]
    exact .refl ..

theorem unanswered_setConn {conn : Nat} {connection : Conn}
    (fewer : connection.unanswered.Sublist (pool.connections conn).unanswered) (other : Nat) :
    ((pool.setConn conn connection).connections other).unanswered.Sublist
      (pool.connections other).unanswered := by
  by_cases same : other = conn
  · rw [same, setConn_self]
    exact fewer
  · rw [setConn_of_ne same]

/-- A turn of one request that writes nothing. -/
theorem Effect.of_request {number : Nat} {request : Request}
    (requests : next.requests = Function.update pool.requests number request)
    (replies : next.replies = pool.replies)
    (unanswered : ∀ conn, (next.connections conn).unanswered.Sublist
      (pool.connections conn).unanswered)
    (own : Moves step number (pool.requests number) request) : Effect step pool next :=
  .quiet replies unanswered (moves_of_update requests own)

/-- A turn of one request that writes, or whose connection is lost. -/
theorem Effect.of_send {number conn : Nat} {commands : List Sent} {phase : Phase}
    (own : Moves step number (pool.requests number)
      { pool.requests number with phase := phase })
    (writes : phase ≠ .acquiring) (nodup : commands.Nodup)
    (new : ∀ item ∈ commands, item.request = number ∧
      item.progress = 3 * (pool.requests number).attempt + phase.stage ∧
      (pool.requests number).progress < item.progress) :
    Effect step pool ((pool.send conn commands).setPhase number phase) := by
  rcases send_cases conn commands with lost | sent
  · rw [lost]
    exact .of_request rfl rfl (fun _ => List.Sublist.refl _) own
  · rw [sent]
    refine .sent number conn commands rfl (fun other => ?_) (moves_of_update rfl own) nodup
      (fun item member => ?_) ?_
    · show ((pool.setConn conn _).connections other).unanswered = _
      by_cases same : other = conn
      · rw [same, setConn_self, if_pos rfl]
      · rw [setConn_of_ne same, if_neg same, List.append_nil]
    · obtain ⟨request, progress, less⟩ := new item member
      refine ⟨request, ?_, less⟩
      rw [progress, Request.progress, setPhase, setRequest]
      simp only [Function.update_self]
      rfl
    · rw [setPhase, setRequest]
      simp only [Function.update_self]
      exact writes

theorem unanswered_closeWriter (conn other : Nat) :
    ((pool.closeWriter conn).connections other).unanswered.Sublist
      (pool.connections other).unanswered :=
  @unanswered_setConn pool conn { pool.connections conn with closed := true }
    (List.Sublist.refl _) other

theorem effect_acquire (number : Nat) :
    Effect (.acquire number) pool (pool.acquire number) := by
  unfold acquire
  dsimp only
  split
  swap
  · exact .stay ..
  rename_i phase
  split_ifs
  swap
  · exact .stay ..
  split <;> exact .of_request rfl rfl (fun _ => List.Sublist.refl _) (.entered phase rfl)

theorem effect_connected (number : Nat) :
    Effect (.connected number) pool (pool.connected number) := by
  unfold connected
  split
  swap
  · exact .stay ..
  rename_i phase
  have fresh (other : Nat) := @unanswered_setConn pool pool.opened .opened (List.nil_sublist _) other
  dsimp only
  split_ifs <;>
    exact .of_request rfl rfl fresh
      (.on rfl (by rw [phase]; exact Nat.zero_le _) (by rw [phase]; exact False.elim))

theorem effect_authWrite (number : Nat) :
    Effect (.authWrite number) pool (pool.authWrite number) := by
  unfold authWrite
  split
  swap
  · exact .stay ..
  rename_i conn phase
  refine .of_send (.on rfl (by rw [phase]; exact Nat.zero_le _) (by rw [phase]; exact False.elim))
    (by simp) (List.nodup_singleton _) fun item member => ?_
  obtain rfl := List.mem_singleton.mp member
  refine ⟨rfl, rfl, ?_⟩
  rw [Request.progress, phase]
  exact Nat.lt_succ_self _

theorem effect_authReply (number : Nat) :
    Effect (.authReply number) pool (pool.authReply number) := by
  unfold authReply
  split
  swap
  · exact .stay ..
  rename_i conn phase
  dsimp only
  split
  · exact .stay ..
  rename_i reply rest unread
  have same (other : Nat) := @unanswered_setConn pool conn
    { pool.connections conn with unread := rest } (List.Sublist.refl _) other
  split_ifs
  · refine .of_request rfl rfl (fun other => ?_)
      (.on rfl (by rw [phase]; exact Nat.le_succ 1) (by rw [phase]; exact False.elim))
    exact (unanswered_closeWriter conn other).trans (same other)
  · exact .of_request rfl rfl same
      (.on rfl (by rw [phase]; exact Nat.le_refl _) (by rw [phase]; exact False.elim))

theorem effect_write (number : Nat) : Effect (.write number) pool (pool.write number) := by
  unfold write
  split
  swap
  · exact .stay ..
  rename_i conn reused phase
  refine .of_send (.on rfl (by rw [phase]; exact Nat.le_succ 1) fun _ => trivial) (by simp) ?_
    fun item member => ?_
  · refine List.nodup_range.map fun first second same => ?_
    injection same
  · obtain ⟨position, -, rfl⟩ := List.mem_map.mp member
    refine ⟨rfl, rfl, ?_⟩
    rw [Request.progress, phase]
    exact Nat.lt_succ_self _

theorem effect_readReply (number : Nat) :
    Effect (.readReply number) pool (pool.readReply number) := by
  unfold readReply
  split
  swap
  · exact .stay ..
  rename_i conn reused replies phase
  dsimp only
  split
  · exact .stay ..
  rename_i reply rest unread
  split_ifs
  swap
  · exact .stay ..
  exact .of_request rfl rfl
    (fun other => @unanswered_setConn pool conn { pool.connections conn with unread := rest }
      (List.Sublist.refl _) other)
    (.on rfl (by rw [phase]; exact Nat.le_refl _) fun _ => trivial)

theorem effect_finish (number : Nat) : Effect (.finish number) pool (pool.finish number) := by
  unfold finish
  split
  swap
  · exact .stay ..
  rename_i conn reused replies phase
  split_ifs
  swap
  · exact .stay ..
  have done : Moves (.finish number) number (pool.requests number)
      { pool.requests number with
        phase := .returned replies
        given := (pool.requests number).given + 1 } :=
    .on rfl (by rw [phase]; exact Nat.le_refl _) fun _ => trivial
  by_cases isOpen : (true && !pool.closed) = true
  · simp only [leave, isOpen, if_true]
    exact .of_request rfl rfl (fun _ => List.Sublist.refl _) done
  · simp only [leave, isOpen]
    exact .of_request rfl rfl (unanswered_closeWriter conn) done

theorem effect_fail (number : Nat) (failure : Failure) :
    Effect (.fail number failure) pool (pool.fail number failure) := by
  have raise {given : Nat} (early : (pool.requests number).phase.stage ≤ 2) :
      Moves (.fail number failure) number (pool.requests number)
        { pool.requests number with phase := .raised, given := given } :=
    .on rfl early fun _ => trivial
  have early : (pool.requests number).phase.stage ≤ 2 := by
    cases (pool.requests number).phase <;> simp [Phase.stage]
  have after {reused : Bool} {given : Nat}
      (reusing : reused = true → (pool.requests number).phase.Reusing) :
      Moves (.fail number failure) number (pool.requests number)
        { pool.requests number with phase := .afterFailure reused failure, given := given } := by
    unfold Phase.afterFailure
    split_ifs with again
    · obtain ⟨isReused, rfl⟩ := again
      exact .retried rfl (reusing isReused) rfl rfl
    · exact raise early
  unfold fail
  split
  · split_ifs
    · exact .of_request rfl rfl (fun _ => List.Sublist.refl _) (raise early)
    · exact .stay ..
  · exact .of_request rfl rfl (fun _ => List.Sublist.refl _) (raise early)
  · exact .of_request rfl rfl (unanswered_closeWriter _) (raise early)
  · exact .of_request rfl rfl (unanswered_closeWriter _) (raise early)
  · rename_i phase
    exact .of_request rfl rfl (unanswered_closeWriter _)
      (after fun isReused => by rw [phase]; exact isReused)
  · rename_i phase
    exact .of_request rfl rfl (unanswered_closeWriter _)
      (after fun isReused => by rw [phase]; exact isReused)
  · exact .stay ..

theorem effect_serve (conn : Nat) (value : Value) :
    Effect (.serve conn value) pool (pool.serve conn value) := by
  unfold serve
  dsimp only
  split
  swap
  · exact .stay ..
  rename_i sent rest alive unanswered
  refine .served conn sent rest value unanswered rfl (fun other => ?_) rfl
  show ((pool.setConn conn _).connections other).unanswered = _
  by_cases same : other = conn
  · rw [same, setConn_self, if_pos rfl]
  · rw [setConn_of_ne same, if_neg same]

/-- What a turn can do to the commands and the requests. -/
theorem effect_step (pool : ConnectionPool) (step : PoolStep) :
    Effect step pool (pool.step step) := by
  cases step with
  | request number commands =>
      simp only [ConnectionPool.step, request]
      split
      · rename_i phase
        exact .of_request rfl rfl (fun _ => List.Sublist.refl _)
          (.on rfl (by rw [phase]; exact Nat.zero_le _) (by rw [phase]; exact False.elim))
      · exact .stay ..
  | acquire number => exact effect_acquire number
  | connected number => exact effect_connected number
  | authWrite number => exact effect_authWrite number
  | authReply number => exact effect_authReply number
  | write number => exact effect_write number
  | readReply number => exact effect_readReply number
  | finish number => exact effect_finish number
  | fail number failure => exact effect_fail number failure
  | serve conn value => exact effect_serve conn value
  | drop conn kept =>
      exact .quiet rfl (unanswered_setConn (List.nil_sublist _)) fun _ => .refl ..
  | close => exact .quiet rfl (fun _ => List.Sublist.refl _) fun _ => .refl ..
  | closeIdle =>
      simp only [ConnectionPool.step, closeIdle]
      split
      · exact .quiet rfl (unanswered_closeWriter _) fun _ => .refl ..
      · exact .stay ..

end Effects

section Once

/-- A command that the shard has applied or may still apply. -/
def Present (pool : ConnectionPool) (item : Sent) : Prop :=
  item ∈ pool.applied ∨ ∃ conn, item ∈ (pool.connections conn).unanswered

/-- Every command that was written is in one place. -/
structure Once (pool : ConnectionPool) : Prop where
  applied : pool.applied.Nodup
  pending : ∀ conn, (pool.connections conn).unanswered.Nodup
  apart : ∀ conn, ∀ item ∈ (pool.connections conn).unanswered, item ∉ pool.applied
  exclusive : ∀ conn other item, item ∈ (pool.connections conn).unanswered →
    item ∈ (pool.connections other).unanswered → conn = other
  written : ∀ item, pool.Present item → item.progress ≤ (pool.requests item.request).progress

theorem once_init (poolSize : Nat) (password : Option Text) :
    Once (init poolSize password) := by
  refine ⟨List.nodup_nil, fun _ => List.nodup_nil, by simp [init, Conn.opened],
    by simp [init, Conn.opened], ?_⟩
  rintro item (isApplied | ⟨conn, isPending⟩)
  · cases isApplied
  · cases isPending

theorem Effect.moves (effect : Effect step pool next) (number : Nat) :
    Moves step number (pool.requests number) (next.requests number) := by
  cases effect with
  | quiet _ _ moves => exact moves number
  | sent _ _ _ _ _ moves _ _ _ => exact moves number
  | served _ _ _ _ _ _ _ requests =>
      rw [requests]
      exact .refl ..

/-- A present command was present, or it was just written. -/
theorem Effect.present {item : Sent} (effect : Effect step pool next)
    (isPresent : next.Present item) :
    pool.Present item ∨
      (item.progress = (next.requests item.request).progress ∧
        (pool.requests item.request).progress < item.progress ∧
        (next.requests item.request).phase ≠ .acquiring) := by
  cases effect with
  | quiet replies unanswered _ =>
      rcases isPresent with isApplied | ⟨conn, isPending⟩
      · rw [applied, replies] at isApplied
        exact Or.inl (Or.inl isApplied)
      · exact Or.inl (Or.inr ⟨conn, (unanswered conn).subset isPending⟩)
  | sent number conn commands replies unanswered _ _ own writes =>
      rcases isPresent with isApplied | ⟨other, isPending⟩
      · rw [applied, replies] at isApplied
        exact Or.inl (Or.inl isApplied)
      · rw [unanswered] at isPending
        rcases List.mem_append.mp isPending with before | isNew
        · exact Or.inl (Or.inr ⟨other, before⟩)
        · split_ifs at isNew
          · obtain ⟨rfl, progress, less⟩ := own item isNew
            exact Or.inr ⟨progress, less, writes⟩
          · cases isNew
  | served conn sent rest value before replies unanswered _ =>
      have isHead : pool.Present sent := Or.inr ⟨conn, by simp [before]⟩
      rcases isPresent with isApplied | ⟨other, isPending⟩
      · rw [applied, replies, List.map_append] at isApplied
        rcases List.mem_append.mp isApplied with earlier | isNew
        · exact Or.inl (Or.inl earlier)
        · obtain rfl := List.mem_singleton.mp isNew
          exact Or.inl isHead
      · rw [unanswered] at isPending
        split_ifs at isPending with same
        · exact Or.inl (Or.inr ⟨conn, before ▸ List.mem_cons_of_mem _ isPending⟩)
        · exact Or.inl (Or.inr ⟨other, isPending⟩)

theorem Effect.once (effect : Effect step pool next) (once : Once pool) : Once next := by
  have written : ∀ item, next.Present item →
      item.progress ≤ (next.requests item.request).progress := by
    intro item isPresent
    rcases effect.present isPresent with before | ⟨progress, -, -⟩
    · exact (once.written item before).trans (effect.moves item.request).progress
    · exact Nat.le_of_eq progress
  cases effect with
  | quiet replies unanswered _ =>
      have same : next.applied = pool.applied := by rw [applied, replies, applied]
      refine ⟨same ▸ once.applied, fun conn => (once.pending conn).sublist (unanswered conn), ?_,
        ?_, written⟩
      · intro conn item member
        rw [same]
        exact once.apart conn item ((unanswered conn).subset member)
      · exact fun conn other item first second => once.exclusive conn other item
          ((unanswered conn).subset first) ((unanswered other).subset second)
  | sent number conn commands replies unanswered _ nodup own _ =>
      have same : next.applied = pool.applied := by rw [applied, replies, applied]
      have new : ∀ item ∈ commands, ¬ pool.Present item := by
        intro item member isPresent
        obtain ⟨rfl, -, less⟩ := own item member
        exact absurd (once.written item isPresent) (Nat.not_le_of_lt less)
      have cases' {other : Nat} {item : Sent}
          (member : item ∈ (next.connections other).unanswered) :
          item ∈ (pool.connections other).unanswered ∨ (other = conn ∧ item ∈ commands) := by
        rw [unanswered] at member
        rcases List.mem_append.mp member with before | isNew
        · exact Or.inl before
        · split_ifs at isNew with same
          · exact Or.inr ⟨same, isNew⟩
          · cases isNew
      refine ⟨same ▸ once.applied, fun other => ?_, fun other item member => ?_,
        fun first second item inFirst inSecond => ?_, written⟩
      · rw [unanswered]
        refine List.nodup_append.mpr ⟨once.pending other, ?_, ?_⟩
        · split_ifs
          · exact nodup
          · exact List.nodup_nil
        · rintro item before later isNew rfl
          split_ifs at isNew
          · exact new item isNew (Or.inr ⟨other, before⟩)
          · cases isNew
      · rw [same]
        rcases cases' member with before | ⟨-, isNew⟩
        · exact once.apart other item before
        · exact fun isApplied => new item isNew (Or.inl isApplied)
      · rcases cases' inFirst with before | ⟨isConn, isNew⟩ <;>
          rcases cases' inSecond with also | ⟨alsoConn, alsoNew⟩
        · exact once.exclusive first second item before also
        · exact absurd (Or.inr ⟨first, before⟩) (new item alsoNew)
        · exact absurd (Or.inr ⟨second, also⟩) (new item isNew)
        · exact isConn.trans alsoConn.symm
  | served conn sent rest value before replies unanswered _ =>
      have shape : next.applied = pool.applied ++ [sent] := by
        rw [applied, replies, List.map_append]
        rfl
      have nodup := once.pending conn
      rw [before, List.nodup_cons] at nodup
      have isHead : sent ∈ (pool.connections conn).unanswered := by simp [before]
      have less {other : Nat} {item : Sent}
          (member : item ∈ (next.connections other).unanswered) :
          item ∈ (pool.connections other).unanswered ∧ item ≠ sent := by
        rw [unanswered] at member
        split_ifs at member with same
        · rw [same, before]
          exact ⟨List.mem_cons_of_mem _ member, fun isSent => nodup.1 (isSent ▸ member)⟩
        · exact ⟨member, fun isSent =>
            same (once.exclusive other conn sent (isSent ▸ member) isHead)⟩
      refine ⟨?_, fun other => ?_, fun other item member => ?_,
        fun first second item inFirst inSecond =>
          once.exclusive first second item (less inFirst).1 (less inSecond).1, written⟩
      · rw [shape]
        refine List.nodup_append.mpr ⟨once.applied, List.nodup_singleton _, ?_⟩
        rintro item isApplied last isLast rfl
        rw [List.mem_singleton.mp isLast] at isApplied
        exact once.apart conn sent isHead isApplied
      · rw [unanswered]
        split_ifs
        · exact nodup.2
        · exact once.pending other
      · rw [shape]
        intro isApplied
        rcases List.mem_append.mp isApplied with earlier | isLast
        · exact once.apart other item (less member).1 earlier
        · exact (less member).2 (List.mem_singleton.mp isLast)

theorem once_run (poolSize : Nat) (password : Option Text) (steps : List PoolStep) :
    Once ((init poolSize password).run steps) := by
  induction steps using List.reverseRec with
  | nil => exact once_init poolSize password
  | append_singleton steps step ih =>
      rw [run, List.foldl_append, List.foldl_cons, List.foldl_nil]
      exact (effect_step _ step).once ih

end Once

section Retries

variable {number : Nat}

/-- A turn after which a request writes again commands that the shard has applied or may
still apply: a reused connection breaks on which they were delivered. -/
def Repeats (pool : ConnectionPool) (step : PoolStep) (number : Nat) : Prop :=
  step = .fail number .broken ∧ (pool.requests number).phase.Reusing ∧
    ∃ position, pool.Present (.command number (pool.requests number).attempt position)

/-- Only the commands of the last attempt of a request are present, and only once they are
written. -/
def Single (pool : ConnectionPool) (number : Nat) : Prop :=
  ∀ attempt position, pool.Present (.command number attempt position) →
    attempt = (pool.requests number).attempt ∧ (pool.requests number).phase.Lasting

theorem Effect.single (effect : Effect step pool next) (single : pool.Single number)
    (safe : ¬ pool.Repeats step number) : next.Single number := by
  intro attempt position isPresent
  rcases effect.present isPresent with before | ⟨progress, -, writes⟩
  · obtain ⟨rfl, lasting⟩ := single attempt position before
    cases effect.moves number with
    | on same _ keeps => exact ⟨same.symm, keeps lasting⟩
    | entered phase _ =>
        rw [phase] at lasting
        exact lasting.elim
    | retried isBroken reusing _ _ => exact absurd ⟨isBroken, reusing, position, before⟩ safe
  · have stage : (next.requests number).phase.stage ≤ 2 := by
      cases (next.requests number).phase <;> simp [Phase.stage]
    have same : 3 * attempt + 2 = 3 * (next.requests number).attempt +
        (next.requests number).phase.stage := progress
    refine ⟨by omega, ?_⟩
    have last : (next.requests number).phase.stage = 2 := by omega
    have notAcquiring : (next.requests number).phase ≠ .acquiring := writes
    cases phase : (next.requests number).phase with
    | absent | connecting | authWriting conn | authReading conn | writing conn reused =>
        rw [phase] at last
        cases last
    | acquiring => exact absurd phase notAcquiring
    | reading conn reused replies | returned replies | raised => trivial

/-- In a run in which no turn repeats a request, its commands stay single. -/
theorem single_run (poolSize : Nat) (password : Option Text) {steps : List PoolStep}
    (safe : ∀ before step after, steps = before ++ step :: after →
      ¬ ((init poolSize password).run before).Repeats step number) :
    ((init poolSize password).run steps).Single number := by
  induction steps using List.reverseRec with
  | nil =>
      rintro attempt position (isApplied | ⟨conn, isPending⟩)
      · cases isApplied
      · cases isPending
  | append_singleton steps step ih =>
      have earlier := ih fun before other after split =>
        safe before other (after ++ [step]) (by rw [split, List.append_assoc, List.cons_append])
      rw [run, List.foldl_append, List.foldl_cons, List.foldl_nil]
      exact (effect_step _ step).single earlier (safe steps step [] rfl)

/-- Whether a command is the one at a position of a request, in any attempt. -/
def isCommand (number position : Nat) : Sent → Bool
  | .auth _ _ => false
  | .command request _ place => request = number && place = position

/-- How often the shard has applied a command of a request. -/
def applications (pool : ConnectionPool) (number position : Nat) : Nat :=
  pool.applied.countP (isCommand number position)

/-- In every run the shard applies each command of a request at most once for every
connection that the request tries, and at most once in all when no reused connection of the
request breaks on which its commands were delivered. -/
theorem applied_once (poolSize : Nat) (password : Option Text) (steps : List PoolStep)
    (number : Nat) :
    let pool := (init poolSize password).run steps
    (∀ attempt position, pool.applied.count (.command number attempt position) ≤ 1) ∧
      ((∀ before step after, steps = before ++ step :: after →
          ¬ ((init poolSize password).run before).Repeats step number) →
        ∀ position, pool.applications number position ≤ 1) := by
  intro pool
  have once : Once pool := once_run poolSize password steps
  have each := List.nodup_iff_count_le_one.mp once.applied
  refine ⟨fun attempt position => each _, fun safe position => ?_⟩
  have single : pool.Single number := single_run poolSize password safe
  refine le_trans ?_ (each (.command number (pool.requests number).attempt position))
  refine List.countP_mono_left fun item member isOwn => ?_
  cases item with
  | auth request attempt => cases isOwn
  | command request attempt place =>
      obtain ⟨rfl, rfl⟩ : request = number ∧ place = position := by
        simpa [isCommand] using isOwn
      rw [(single attempt place (Or.inl member)).1]
      exact beq_self_eq_true _

/-- A request that leaves its connection in the pool. -/
def warmUp : List PoolStep :=
  [.request 0 [[.str "SET".toList, .bytes [107], .bytes [49]]], .acquire 0, .connected 0,
    .write 0, .serve 0 OK, .readReply 0, .finish 0]

/-- A request that writes an increment to the connection in the pool. -/
def increment : List PoolStep :=
  [.request 1 [[.str "INCRBY".toList, .bytes [107], .bytes [49]]], .acquire 1, .write 1]

/-- The request tries again on a new connection. -/
def again (value : Int) : List PoolStep :=
  [.acquire 1, .connected 1, .write 1, .serve 1 (.int value), .readReply 1, .finish 1]

/-- The shard goes away while the connection is idle, and the request is sent again. -/
theorem applied_once_restarted :
    ((init 1 none).run (warmUp ++ .drop 0 0 :: increment ++ .fail 1 .broken :: again 2)).applications
      1 0 ≤ 1 := by
  refine (applied_once 1 none _ 1).2 (fun before step after split => ?_) 0
  rintro ⟨rfl, -, position, isPresent⟩
  obtain ⟨rfl, -, -⟩ := (List.append_cons_inj_of_notMem (by simp [warmUp, increment])
    (by simp [again])).mp split
  rcases isPresent with isApplied | ⟨conn, isPending⟩
  · have applied : ((init 1 none).run (warmUp ++ .drop 0 0 :: increment)).applied =
        [.command 0 1 0] := rfl
    simp [applied] at isApplied
  · have pending : (((init 1 none).run (warmUp ++ .drop 0 0 :: increment)).connections
        conn).unanswered = [] := by
      by_cases first : conn = 0
      · subst first
        rfl
      · simp [warmUp, increment, run, ConnectionPool.step, request, acquire, connected, write,
          serve, readReply, finish, drop, leave, send, setConn, setPhase, setRequest, init,
          ownCommands, Function.update_of_ne first, Conn.opened]
    rw [pending] at isPending
    cases isPending

/-- The shard applies an increment, the connection breaks before its reply arrives, and the
increment is applied again. -/
theorem not_applied_once :
    let pool := (init 1 none).run
      (warmUp ++ increment ++ .serve 0 (.int 2) :: .fail 1 .broken :: again 3)
    (pool.requests 1).phase = .returned [⟨.command 1 2 0, .int 3⟩] ∧
      pool.applications 1 0 = 2 :=
  ⟨rfl, rfl⟩

end Retries

end ConnectionPool

end MiniCache
