import MiniCache.ServerTurns

/-!
# The authentication gate

A connection to a server with a password, before an `AUTH` with that password or after one
that was rejected.  Between two commands of the connection the server may change in any way;
what the connection is answered is a function of its commands and of which of its attempts
matched.
-/

namespace MiniCache

/-- A command of a connection, with the server and the clock that it meets. -/
structure Visit where
  clock : Clock
  server : Server
  command : List Bytes

/-- What `_handle_client` keeps of a connection, and what it has sent. -/
structure Connection where
  authed : Bool
  next : Next
  sent : List Value

namespace Connection

/-- A connection is accepted. -/
def accept (server : Server) : Connection := ⟨server.requirepass.isNone, .again, []⟩

/-- The loop reads a command, if it still runs. -/
def visit (connection : Connection) (visit : Visit) : Connection :=
  if connection.next = .again then
    let turn := visit.server.handle visit.clock connection.authed visit.command
    ⟨turn.authed, turn.next, connection.sent ++ turn.replies⟩
  else connection

def serve (connection : Connection) (visits : List Visit) : Connection :=
  visits.foldl visit connection

end Connection

/-- A command whose name is `AUTH`. -/
def IsAuth (command : List Bytes) : Prop :=
  ∃ head, command.head? = some head ∧ upper (decodeAscii head) = "AUTH".toList

instance (command : List Bytes) : Decidable (IsAuth command) :=
  match command with
  | [] => isFalse (by rintro ⟨head, ⟨⟩, -⟩)
  | head :: _ => decidable_of_iff (upper (decodeAscii head) = "AUTH".toList)
      ⟨fun name => ⟨head, rfl, name⟩, by rintro ⟨_, ⟨⟩, name⟩; exact name⟩

/-- The arguments give a password. -/
def Matches (password : Text) (args : List Bytes) : Prop :=
  (args.length = 1 ∨ args.length = 2 ∧ args.head? = some (encodeUtf8 "default".toList)) ∧
    args.getLast? = some (encodeUtf8 password)

instance (password : Text) (args : List Bytes) : Decidable (Matches password args) :=
  inferInstanceAs (Decidable (_ ∧ _))

/-- After these commands the last `AUTH`, if there was one, was rejected. -/
def Locked (password : Text) (commands : List (List Bytes)) : Prop :=
  ∀ command, (commands.filter IsAuth).getLast? = some command → ¬ Matches password command.tail

/-- The answers to a command of a connection that is locked, by whether it is an `AUTH` that
matches. -/
def lockedReplies (matched : Bool) (command : List Bytes) : List Value :=
  match command with
  | [] => []
  | head :: args =>
      if upper (decodeAscii head) = "QUIT".toList then [OK]
      else if upper (decodeAscii head) = "AUTH".toList then
        if matched then [OK]
        else if args.length ≠ 1 ∧ args.length ≠ 2 then
          [errorReply "ERR wrong number of arguments for 'AUTH' command"]
        else [errorReply "WRONGPASS invalid username-password pair"]
      else [errorReply "NOAUTH Authentication required."]

variable {password : Text} {server : Server}

/-- `_check_auth` knows nothing of the server but its password. -/
theorem checkAuth_eq (guarded : server.requirepass = some password) (args : List Bytes) :
    server.checkAuth args =
      if Matches password args then OK
      else if args.length ≠ 1 ∧ args.length ≠ 2 then
        errorReply "ERR wrong number of arguments for 'AUTH' command"
      else errorReply "WRONGPASS invalid username-password pair" := by
  unfold Server.checkAuth
  rw [guarded]
  dsimp only
  by_cases wrong : args.length ≠ 1 ∧ args.length ≠ 2
  · have unmatched : ¬ Matches password args := by
      rintro ⟨count, -⟩
      omega
    rw [if_pos wrong, if_neg unmatched, if_pos wrong]
  · rw [if_neg wrong, if_neg wrong]
    by_cases stranger : args.length = 2 ∧ args.head? ≠ some (encodeUtf8 "default".toList)
    · have unmatched : ¬ Matches password args := by
        rintro ⟨one | ⟨-, user⟩, -⟩
        · omega
        · exact stranger.2 user
      rw [if_pos stranger, if_neg unmatched]
    · rw [if_neg stranger]
      have known : args.length = 1 ∨
          args.length = 2 ∧ args.head? = some (encodeUtf8 "default".toList) := by
        by_cases one : args.length = 1
        · exact Or.inl one
        · refine Or.inr ⟨by omega, ?_⟩
          by_contra other
          exact stranger ⟨by omega, other⟩
      exact if_congr ⟨fun last => ⟨known, last⟩, And.right⟩ rfl rfl

theorem checkAuth_isError (guarded : server.requirepass = some password) (args : List Bytes) :
    (server.checkAuth args).isError = false ↔ Matches password args := by
  rw [checkAuth_eq guarded]
  split_ifs with found wrong
  · exact iff_of_true rfl found
  · exact iff_of_false (by simp [errorReply, Value.isError]) found
  · exact iff_of_false (by simp [errorReply, Value.isError]) found

theorem isAuth_cons_iff {head : Bytes} {args : List Bytes} :
    IsAuth (head :: args) ↔ upper (decodeAscii head) = "AUTH".toList :=
  ⟨by rintro ⟨_, ⟨⟩, name⟩; exact name, fun name => ⟨head, rfl, name⟩⟩

theorem execute_authed (clock : Clock) (server : Server) (authed : Bool) (name : Text)
    (command : List Arg) : (server.execute clock authed name command).authed = authed := by
  unfold Server.execute
  split
  · rfl
  · split_ifs
    · dsimp only
      split <;> rfl
    · rfl

/-- Only an `AUTH` changes what a connection may do, and then its match decides. -/
theorem handle_authed (guarded : server.requirepass = some password) (clock : Clock)
    (authed : Bool) (command : List Bytes) :
    (server.handle clock authed command).authed =
      if IsAuth command then decide (Matches password command.tail) else authed := by
  cases command with
  | nil => rfl
  | cons head args =>
      by_cases auth : upper (decodeAscii head) = "AUTH".toList
      · rw [if_pos (isAuth_cons_iff.mpr auth)]
        have matched := checkAuth_isError guarded args
        unfold Server.handle
        dsimp only
        rw [if_neg (by rw [auth]; decide), if_pos auth,
          if_pos (by rw [guarded]; exact rfl), List.tail_cons]
        rw [show ({ server with commandsProcessed := server.commandsProcessed + 1 } :
          Server).checkAuth args = server.checkAuth args from rfl]
        by_cases found : Matches password args
        · rw [matched.mpr found, decide_eq_true found]
          rfl
        · rw [decide_eq_false found]
          cases error : (server.checkAuth args).isError with
          | true => rfl
          | false => exact absurd (matched.mp error) found
      · rw [if_neg (mt isAuth_cons_iff.mp auth)]
        unfold Server.handle
        dsimp only
        rw [if_neg auth]
        split_ifs
        all_goals first
          | rfl
          | exact execute_authed ..

/-- The turn of a command that meets the gate closed. -/
theorem handle_locked (guarded : server.requirepass = some password) (clock : Clock)
    (command : List Bytes) :
    let turn := server.handle clock false command
    turn.server.store = server.store ∧ turn.server.aof = server.aof ∧
      turn.server.replicas = server.replicas ∧ turn.propagated = [] ∧
      turn.replies = lockedReplies
        (decide (IsAuth command ∧ Matches password command.tail)) command ∧
      turn.next = (if command.head?.map (fun head => upper (decodeAscii head)) =
        some "QUIT".toList then .closed else .again) := by
  cases command with
  | nil => exact ⟨rfl, rfl, rfl, rfl, rfl, rfl⟩
  | cons head args =>
      simp only [Server.handle, lockedReplies, List.head?_cons, Option.map_some,
        Option.some.injEq, if_true]
      by_cases quit : upper (decodeAscii head) = "QUIT".toList
      · simp only [if_pos quit, and_self]
      · simp only [if_neg quit]
        by_cases auth : upper (decodeAscii head) = "AUTH".toList
        · simp only [if_pos auth]
          refine ⟨trivial, trivial, trivial, trivial, ?_, trivial⟩
          rw [show ({ server with commandsProcessed := server.commandsProcessed + 1 } :
            Server).checkAuth args = server.checkAuth args from rfl, checkAuth_eq guarded]
          simp only [isAuth_cons_iff, auth, true_and, List.tail_cons, decide_eq_true_eq]
          split_ifs <;> rfl
        · simp only [if_neg auth, and_self]

theorem locked_append (commands : List (List Bytes)) (command : List Bytes) :
    Locked password (commands ++ [command]) ↔
      if IsAuth command then ¬ Matches password command.tail else Locked password commands := by
  unfold Locked
  rw [List.filter_append]
  split_ifs with auth
  · simp [auth]
  · simp [auth]

namespace Connection

variable {visits : List Visit}

theorem serve_append (connection : Connection) (visits : List Visit) (next : Visit) :
    connection.serve (visits ++ [next]) = (connection.serve visits).visit next := by
  rw [serve, List.foldl_append]
  rfl

/-- A connection that is still served is authenticated just when it is not locked. -/
theorem authed_iff {accepting : Server} (guarded : accepting.requirepass = some password)
    (all : ∀ each ∈ visits, each.server.requirepass = some password)
    (isOpen : ((accept accepting).serve visits).next = .again) :
    ((accept accepting).serve visits).authed = true ↔
      ¬ Locked password (visits.map Visit.command) := by
  induction visits using List.reverseRecOn with
  | nil =>
      rw [serve, List.foldl_nil, accept, guarded]
      refine iff_of_false (by simp) (not_not_intro ?_)
      rintro command ⟨⟩
  | append_singleton visits last ih =>
      rw [serve_append, visit] at isOpen ⊢
      split_ifs at isOpen ⊢ with before
      · have earlier := ih (fun each member => all each (List.mem_append_left _ member)) before
        have here := all last (List.mem_append_right _ (List.mem_singleton_self _))
        dsimp only
        rw [List.map_append, List.map_singleton, locked_append, handle_authed here]
        split_ifs with auth
        · simp
        · exact earlier
      · exact absurd isOpen before

end Connection

/-- As long as a connection to a server with a password is locked, its next command leaves
the store, the log and the replicas alone, and its answer and what becomes of the connection
are a function of the command and of whether it is an `AUTH` that matches, so that all its
answers are those of any other such server.  What it gained by an `AUTH` only another `AUTH`
that is rejected takes away. -/
theorem locked_isolated (password : Text) (accepting : Server)
    (guarded : accepting.requirepass = some password) (visits : List Visit)
    (all : ∀ each ∈ visits, each.server.requirepass = some password) :
    let connection := (Connection.accept accepting).serve visits
    (∀ visit : Visit, visit.server.requirepass = some password → connection.next = .again →
      let turn := visit.server.handle visit.clock connection.authed visit.command
      (Locked password (visits.map Visit.command) →
        turn.server.store = visit.server.store ∧ turn.server.aof = visit.server.aof ∧
        turn.server.replicas = visit.server.replicas ∧ turn.propagated = [] ∧
        turn.next ≠ .syncing ∧ turn.replies = lockedReplies
          (decide (IsAuth visit.command ∧ Matches password visit.command.tail)) visit.command) ∧
      (connection.authed = true → turn.authed = false →
        IsAuth visit.command ∧ ¬ Matches password visit.command.tail)) ∧
    ∀ (other : Server) (others : List Visit), other.requirepass = some password →
      (∀ each ∈ others, each.server.requirepass = some password) →
      others.map Visit.command = visits.map Visit.command →
      (∀ earlier last, earlier ++ [last] <+: visits.map Visit.command →
        Locked password earlier) →
      (Connection.accept other).serve others = connection := by
  intro connection
  refine ⟨fun visit here isOpen => ⟨fun locked => ?_, fun authed lost => ?_⟩, ?_⟩
  · have closed : connection.authed = false := by
      rw [← Bool.not_eq_true, Connection.authed_iff guarded all isOpen]
      exact not_not_intro locked
    rw [closed]
    obtain ⟨store, aof, replicas, propagated, replies, next⟩ :=
      handle_locked here visit.clock visit.command
    refine ⟨store, aof, replicas, propagated, ?_, replies⟩
    rw [next]
    split_ifs <;> exact nofun
  · rw [handle_authed here, authed] at lost
    split_ifs at lost with auth
    · exact ⟨auth, of_decide_eq_false lost⟩
  · intro other others otherGuarded otherAll same locked
    induction visits using List.reverseRecOn generalizing others with
    | nil =>
        obtain rfl : others = [] := List.map_eq_nil_iff.mp same
        change Connection.accept other = Connection.accept accepting
        rw [Connection.accept, Connection.accept, otherGuarded, guarded]
    | append_singleton visits last ih =>
        rw [List.map_append, List.map_singleton] at same locked
        obtain ⟨before, final, rfl, sameBefore, sameFinal⟩ := List.map_eq_append_iff.mp same
        obtain ⟨otherLast, rfl, command⟩ := List.map_eq_singleton_iff.mp sameFinal
        have earlierAll : ∀ each ∈ visits, each.server.requirepass = some password :=
          fun each member => all each (List.mem_append_left _ member)
        have otherEarlier : ∀ each ∈ before, each.server.requirepass = some password :=
          fun each member => otherAll each (List.mem_append_left _ member)
        have agree := ih earlierAll before otherEarlier sameBefore
          fun earlier next inside => locked earlier next (inside.trans (List.prefix_append _ _))
        have here := all last (List.mem_append_right _ (List.mem_singleton_self _))
        have otherHere :=
          otherAll otherLast (List.mem_append_right _ (List.mem_singleton_self _))
        have lockedHere := locked (visits.map Visit.command) last.command (List.prefix_refl _)
        rw [show connection = _ from Connection.serve_append _ visits last,
          Connection.serve_append, agree, Connection.visit, Connection.visit]
        split_ifs with isOpen
        · have closed : ((Connection.accept accepting).serve visits).authed = false := by
            rw [← Bool.not_eq_true, Connection.authed_iff guarded earlierAll isOpen]
            exact not_not_intro lockedHere
          obtain ⟨-, -, -, -, replies, next⟩ := handle_locked here last.clock last.command
          obtain ⟨-, -, -, -, otherReplies, otherNext⟩ :=
            handle_locked otherHere otherLast.clock otherLast.command
          dsimp only
          rw [closed, handle_authed here, handle_authed otherHere, replies, otherReplies, next,
            otherNext, command]
        · rfl

/-- A primary and a replica with the password `s`. -/
def guardedPrimary : Server :=
  { Server.init 0 .noeviction none (some .empty) with requirepass := some ['s'] }

def guardedReplica : Server :=
  { Server.init 0 .allkeysLru (some (['h'], 1)) none with requirepass := some ['s'] }

/-- `SET k v` and `AUTH t`. -/
def strangerCommands : List (List Bytes) :=
  [["SET", "k", "v"].map fun part => encodeUtf8 part.toList,
    ["AUTH", "t"].map fun part => encodeUtf8 part.toList]

theorem locked_isolated_stranger :
    (Connection.accept guardedReplica).serve
        (strangerCommands.map fun command => ⟨.epoch, guardedReplica, command⟩) =
      (Connection.accept guardedPrimary).serve
        (strangerCommands.map fun command => ⟨.epoch, guardedPrimary, command⟩) := by
  have guarded (server : Server) (requires : server.requirepass = some ['s']) :
      ∀ each ∈ strangerCommands.map fun command => (⟨.epoch, server, command⟩ : Visit),
        each.server.requirepass = some ['s'] := by
    intro each member
    obtain ⟨command, -, rfl⟩ := List.mem_map.mp member
    exact requires
  have unmatched : ∀ command ∈ strangerCommands, ¬ Matches ['s'] command.tail := by
    decide +kernel
  refine (locked_isolated ['s'] guardedPrimary rfl _ (guarded guardedPrimary rfl)).2
    guardedReplica _ rfl (guarded guardedReplica rfl) (by simp [Function.comp_def]) ?_
  intro earlier last inside command found auth
  have member : command ∈ strangerCommands := by
    have listed := List.mem_of_mem_filter (List.mem_of_getLast? found)
    have within := inside.subset (List.mem_append_left _ listed)
    simpa [Function.comp_def] using within
  exact unmatched command member auth

end MiniCache
