import MiniCache.ReplicaLinks
import MiniCache.ServerTurns

/-!
# What a link carries

Whatever the order of the turns, a link carries `FLUSHDB`, the snapshot of the store at
the instant of its `SYNC`, and then every command that is propagated, and what reaches
its socket is the beginning of that stream.
-/

namespace MiniCache

namespace ReplicaLink

variable {link other : ReplicaLink} {stream : List Bytes}

/-- The socket gets what the pump wrote, in order, or the beginning of it after a loss. -/
structure Honest (link : ReplicaLink) : Prop where
  sent : link.transport.sent ++ link.transport.buffer <+: link.written.flatten
  whole : link.transport.lost = false →
    link.transport.sent ++ link.transport.buffer = link.written.flatten

/-- A link that carries a stream: all of it while it is open, the beginning of it once it
is closed. -/
structure Carries (stream : List Bytes) (link : ReplicaLink) : Prop where
  queued : link.queued <+: stream
  whole : link.closed = false → link.queued = stream
  honest : Honest link

theorem Honest.sent_queued (honest : Honest link) :
    link.transport.sent <+: link.queued.flatten := by
  rw [ReplicaLink.queued, List.flatten_append]
  exact ((List.prefix_append _ _).trans honest.sent).trans (List.prefix_append _ _)

/-- A method that puts nothing on the queue and does not open a closed link. -/
structure Quiet (link other : ReplicaLink) : Prop where
  queued : other.queued = link.queued
  closed : link.closed = true → other.closed = true
  honest : Honest link → Honest other

theorem Quiet.refl (link : ReplicaLink) : Quiet link link := ⟨rfl, id, id⟩

theorem Carries.of_quiet (carries : Carries stream link) (quiet : Quiet link other) :
    Carries stream other := by
  refine ⟨by rw [quiet.queued]; exact carries.queued, ?_, quiet.honest carries.honest⟩
  intro isOpen
  rw [quiet.queued]
  refine carries.whole ?_
  cases wasClosed : link.closed with
  | false => rfl
  | true => rw [quiet.closed wasClosed] at isOpen; cases isOpen

theorem Honest.of_same (honest : Honest link) (written : other.written = link.written)
    (sent : other.transport.sent = link.transport.sent)
    (buffer : other.transport.buffer = link.transport.buffer)
    (lost : other.transport.lost = link.transport.lost) : Honest other := by
  constructor
  · rw [written, sent, buffer]
    exact honest.sent
  · rw [written, sent, buffer, lost]
    exact honest.whole

theorem quiet_shut (link : ReplicaLink) : Quiet link link.shut :=
  ⟨rfl, fun _ => rfl, fun honest => honest.of_same rfl rfl rfl rfl⟩

theorem quiet_close (link : ReplicaLink) : Quiet link link.close := by
  unfold close
  split_ifs
  · exact Quiet.refl link
  · exact ⟨rfl, fun _ => rfl, fun honest => honest.of_same rfl rfl rfl rfl⟩

theorem quiet_endPump (link : ReplicaLink) : Quiet link link.endPump := by
  unfold endPump
  dsimp only
  split_ifs with closed
  · exact ⟨rfl, fun _ => closed, fun honest => honest.of_same rfl rfl rfl rfl⟩
  · exact ⟨rfl, fun _ => rfl, fun honest => honest.of_same rfl rfl rfl rfl⟩

theorem quiet_pumpFails (link : ReplicaLink) : Quiet link link.pumpFails := by
  unfold pumpFails
  split
  · exact Quiet.refl link
  · exact quiet_endPump link
  · exact quiet_endPump link

/-- The socket gets a payload after those that the pump wrote before. -/
theorem Honest.write (honest : Honest link) (payload : Bytes) (rest : List Bytes) (pump : Pump) :
    Honest { link with
      queue := rest
      pump := pump
      transport := link.transport.write payload
      written := link.written ++ [payload] } := by
  have flattened : (link.written ++ [payload]).flatten = link.written.flatten ++ payload := by
    rw [List.flatten_append, List.flatten_singleton]
  cases lost : link.transport.lost with
  | true =>
      simp only [Transport.write, lost, if_true]
      refine ⟨?_, fun impossible => by rw [lost] at impossible; cases impossible⟩
      rw [flattened]
      exact honest.sent.trans (List.prefix_append _ _)
  | false =>
      have same := honest.whole lost
      simp only [Transport.write, lost, Bool.false_eq_true, if_false]
      constructor
      · rw [flattened, ← same, List.append_assoc]
      · intro _
        rw [flattened, ← same, List.append_assoc]

theorem quiet_pumpTurn (link : ReplicaLink) : Quiet link link.pumpTurn := by
  unfold pumpTurn
  split
  · exact Quiet.refl link
  · split_ifs
    · exact quiet_endPump link
    · split
      · exact Quiet.refl link
      · rename_i payload rest queue
        refine ⟨?_, id, fun honest => honest.write payload rest _⟩
        simp only [ReplicaLink.queued, queue, List.append_assoc, List.singleton_append]
  · split_ifs
    · exact quiet_endPump link
    · exact ⟨rfl, id, fun honest => honest.of_same rfl rfl rfl rfl⟩

theorem quiet_flush (link : ReplicaLink) (count : Nat) : Quiet link (link.flush count) := by
  have same : (link.flush count).transport.sent ++ (link.flush count).transport.buffer =
      link.transport.sent ++ link.transport.buffer := by
    simp only [ReplicaLink.flush, Transport.flush, List.append_assoc, List.take_append_drop]
  exact ⟨rfl, id, fun honest => ⟨by rw [same]; exact honest.sent,
    by rw [same]; exact honest.whole⟩⟩

theorem quiet_lose (link : ReplicaLink) : Quiet link link.lose := by
  refine ⟨rfl, id, fun honest => ⟨?_, fun impossible => by cases impossible⟩⟩
  simp only [ReplicaLink.lose, Transport.lose, List.append_nil]
  exact (List.prefix_append _ _).trans honest.sent

/-- A payload that is sent goes to the end of the queue, or it closes the link. -/
theorem Carries.send (carries : Carries stream link) (payload : Bytes) (force : Bool) :
    Carries (stream ++ [payload]) (link.send payload force) := by
  have longer := carries.queued.trans (List.prefix_append stream [payload])
  unfold ReplicaLink.send
  split_ifs with closed
  · refine ⟨longer, ?_, carries.honest⟩
    intro isOpen
    rw [closed] at isOpen
    cases isOpen
  · dsimp only
    split_ifs with full
    · have quiet := quiet_close { link with pending := link.pending + payload.length }
      have shut : (ReplicaLink.close
          { link with pending := link.pending + payload.length }).closed = true := by
        rw [ReplicaLink.close, if_neg closed]
        rfl
      refine ⟨by rw [quiet.queued]; exact longer, ?_,
        quiet.honest (carries.honest.of_same rfl rfl rfl rfl)⟩
      intro isOpen
      rw [shut] at isOpen
      cases isOpen
    · have same : link.queued = stream := carries.whole (Bool.eq_false_iff.mpr closed)
      have queued : link.written ++ (link.queue ++ [payload]) = stream ++ [payload] := by
        rw [← same, ReplicaLink.queued, List.append_assoc]
      exact ⟨by rw [ReplicaLink.queued, queued], fun _ => queued,
        carries.honest.of_same rfl rfl rfl rfl⟩

theorem send_closed (payload : Bytes) (force : Bool) (closed : link.closed = true) :
    (link.send payload force).closed = true := by
  rw [ReplicaLink.send, if_pos closed]
  exact closed

theorem send_of_closed (payload : Bytes) (force : Bool) (closed : link.closed = true) :
    link.send payload force = link := by
  rw [ReplicaLink.send, if_pos closed]

/-- What is forced does not close the link. -/
theorem send_force (payload : Bytes) (isOpen : link.closed = false) :
    (link.send payload true).closed = false := by
  rw [ReplicaLink.send, if_neg (by rw [isOpen]; decide)]
  simp [isOpen]

end ReplicaLink

namespace Primary

open ReplicaLink (Carries Quiet)

variable {primary : Primary}

/-- The set of replicas holds exactly the links that are open. -/
structure Sound (primary : Primary) : Prop where
  nodup : primary.replicas.Nodup
  mem_iff : ∀ number, number ∈ primary.replicas ↔
    ∃ link, primary.links[number]? = some link ∧ link.closed = false

section Update

variable (number : Nat) (method : ReplicaLink → ReplicaLink)

theorem links_update (other : Nat) :
    (primary.update number method).links[other]? =
      if number = other then primary.links[number]?.map method else primary.links[other]? := by
  unfold update
  cases found : primary.links[number]? with
  | none =>
      split_ifs with same
      · rw [← same, found, Option.map_none]
      · rfl
  | some link =>
      simp only [List.getElem?_set]
      split_ifs with same
      · rfl
      · rw [List.getElem?_eq_none (Nat.le_of_not_lt ‹_›)] at found
        cases found
      · rfl

theorem length_update : (primary.update number method).links.length = primary.links.length := by
  unfold update
  split
  · rfl
  · rw [List.length_set]

theorem server_update : (primary.update number method).server = primary.server := by
  unfold update
  split <;> rfl

variable {number method}

theorem Sound.update (sound : Sound primary)
    (stays : ∀ link, link.closed = true → (method link).closed = true) :
    Sound (primary.update number method) := by
  have links := fun other => @links_update primary number method other
  cases found : primary.links[number]? with
  | none =>
      have same : primary.update number method = primary := by
        rw [Primary.update, found]
      rw [same]
      exact sound
  | some link =>
      have replicas : (primary.update number method).replicas =
          if (method link).closed && !link.closed then primary.replicas.filter (· ≠ number)
          else primary.replicas := by
        rw [Primary.update, found]
      constructor
      · rw [replicas]
        split_ifs
        · exact sound.nodup.filter _
        · exact sound.nodup
      · intro other
        rw [links other, found, replicas]
        by_cases same : number = other
        · subst other
          rw [if_pos rfl, Option.map_some]
          have before := sound.mem_iff number
          rw [found] at before
          cases wasClosed : link.closed with
          | true =>
              have closed := stays link wasClosed
              simp [wasClosed, closed, before]
          | false =>
              cases closed : (method link).closed with
              | true => simp [closed]
              | false => simp [wasClosed, closed, before]
        · rw [if_neg same, ← sound.mem_iff other]
          split_ifs
          · simp [Ne.symm same]
          · rfl

end Update

/-- A payload goes to every link in a set once. -/
theorem links_sends (numbers : List Nat) (nodup : numbers.Nodup) (payload : Bytes)
    (other : Nat) :
    (numbers.foldl (fun primary number => primary.update number (·.send payload false))
        primary).links[other]? =
      if other ∈ numbers then primary.links[other]?.map (·.send payload false)
      else primary.links[other]? := by
  induction numbers generalizing primary with
  | nil => rfl
  | cons number rest ih =>
      obtain ⟨notMem, restNodup⟩ := List.nodup_cons.mp nodup
      rw [List.foldl_cons, ih restNodup, links_update]
      by_cases same : number = other
      · subst other
        rw [if_neg notMem, if_pos rfl, if_pos (List.mem_cons_self ..)]
      · rw [if_neg same]
        simp only [List.mem_cons, Ne.symm same, false_or]

theorem Sound.sends (sound : Sound primary) (numbers : List Nat) (payload : Bytes) :
    Sound (numbers.foldl (fun primary number => primary.update number (·.send payload false))
      primary) := by
  refine List.foldlRecOn numbers _ sound ?_
  intro middle sound number _
  exact sound.update fun link => link.send_closed payload false

theorem Sound.propagate (sound : Sound primary) (command : List Arg) :
    Sound (primary.propagate command) :=
  sound.sends primary.replicas (encodeCommand command)

/-- Every link is sent what is propagated; a closed one takes no notice. -/
theorem Sound.links_propagate (sound : Sound primary) (command : List Arg) (number : Nat) :
    (primary.propagate command).links[number]? =
      primary.links[number]?.map (·.send (encodeCommand command) false) := by
  rw [Primary.propagate, links_sends _ sound.nodup]
  split_ifs with member
  · rfl
  · rw [sound.mem_iff] at member
    cases found : primary.links[number]? with
    | none => rfl
    | some link =>
        have closed : link.closed = true := by
          rw [← Bool.not_eq_false]
          exact fun isOpen => member ⟨link, found, isOpen⟩
        rw [Option.map_some, link.send_of_closed _ _ closed]

/-- Every link of the second state comes from one of the first, with some payloads after
its stream. -/
def Extends (primary other : Primary) (payloads : List Bytes) : Prop :=
  ∀ (number : Nat) (link : ReplicaLink), other.links[number]? = some link →
    ∃ before, primary.links[number]? = some before ∧
      ∀ stream, Carries stream before → Carries (stream ++ payloads) link

theorem Extends.refl (primary : Primary) : Extends primary primary [] := by
  intro number link found
  exact ⟨link, found, fun stream carries => by rwa [List.append_nil]⟩

theorem extends_update {number : Nat} {method : ReplicaLink → ReplicaLink}
    (quiet : ∀ link, Quiet link (method link)) :
    Extends primary (primary.update number method) [] := by
  intro other link found
  rw [links_update] at found
  split_ifs at found with same
  · obtain ⟨before, present, rfl⟩ := Option.map_eq_some_iff.mp found
    refine ⟨before, same ▸ present, fun stream carries => ?_⟩
    rw [List.append_nil]
    exact carries.of_quiet (quiet before)
  · exact Extends.refl primary other link found

theorem Sound.extends_propagate (sound : Sound primary) (commands : List (List Arg)) :
    Sound (commands.foldl Primary.propagate primary) ∧
      Extends primary (commands.foldl Primary.propagate primary) (commands.map encodeCommand) := by
  induction commands generalizing primary with
  | nil => exact ⟨sound, Extends.refl primary⟩
  | cons command rest ih =>
      obtain ⟨after, extended⟩ := ih (sound.propagate command)
      refine ⟨after, ?_⟩
      intro number link found
      obtain ⟨middle, between, later⟩ := extended number link found
      rw [sound.links_propagate] at between
      obtain ⟨before, present, rfl⟩ := Option.map_eq_some_iff.mp between
      refine ⟨before, present, fun stream carries => ?_⟩
      have sent := later _ (carries.send (encodeCommand command) false)
      rwa [List.append_assoc, List.singleton_append] at sent

/-- The stream that a link begins with. -/
def opening (clock : Clock) (store : Store) : List (List Arg) :=
  [Arg.ofString "FLUSHDB"] :: (buildSnapshotCommands clock store).1

/-- A new link is open and carries what it begins with. -/
theorem carries_opening (commands : List (List Arg)) (limit : Nat) :
    let link := commands.foldl (fun link command => link.send (encodeCommand command) true)
      (ReplicaLink.init limit)
    link.closed = false ∧ Carries (commands.map encodeCommand) link := by
  induction commands using List.reverseRecOn with
  | nil => exact ⟨rfl, List.nil_prefix, fun _ => rfl, List.nil_prefix, fun _ => rfl⟩
  | append_singleton commands command ih =>
      rw [List.foldl_append, List.map_append]
      exact ⟨ReplicaLink.send_force _ ih.1, ih.2.send _ true⟩

theorem Sound.serveReplica (sound : Sound primary) (clock : Clock) :
    Sound (primary.serveReplica clock) := by
  have isOpen := (carries_opening (opening clock primary.server.store)
    REPLICA_BACKLOG_LIMIT).1
  constructor
  · refine List.nodup_append.mpr ⟨sound.nodup, List.nodup_singleton _, ?_⟩
    rintro number member _ isNew rfl
    obtain ⟨link, found, -⟩ := (sound.mem_iff number).mp member
    rw [List.mem_singleton.mp isNew, List.getElem?_eq_none (Nat.le_refl _)] at found
    cases found
  · intro number
    simp only [Primary.serveReplica, List.mem_append, List.mem_singleton, sound.mem_iff]
    rcases Nat.lt_trichotomy number primary.links.length with older | rfl | later
    · rw [List.getElem?_append_left older]
      simp [older.ne]
    · rw [List.getElem?_concat_length]
      simp only [or_true, true_iff]
      exact ⟨_, rfl, isOpen⟩
    · rw [List.getElem?_eq_none later.le, List.getElem?_eq_none (by simpa using later)]
      simp [later.ne']

/-- A turn of the loop extends every stream by what it propagates, and a turn that serves a
new replica adds a link. -/
theorem Sound.step (sound : Sound primary) (step : LinkStep) :
    Sound (primary.step step) ∧
      (Extends primary (primary.step step) ((primary.propagatedBy step).map encodeCommand) ∨
        ∃ clock authed command, step = .command clock authed command ∧
          (primary.turn clock authed command).next = .syncing ∧
          primary.step step =
            { primary with server := (primary.turn clock authed command).server }.serveReplica
              clock) := by
  have changed {number : Nat} {method : ReplicaLink → ReplicaLink}
      (quiet : ∀ link, Quiet link (method link)) :
      Sound (primary.update number method) ∧ Extends primary (primary.update number method) [] :=
    ⟨sound.update fun link => (quiet link).closed, extends_update quiet⟩
  cases step with
  | command clock authed command =>
      have served : Sound { primary with server := (primary.turn clock authed command).server } :=
        ⟨sound.nodup, sound.mem_iff⟩
      cases next : (primary.turn clock authed command).next with
      | syncing =>
          have serves : primary.step (.command clock authed command) =
              { primary with
                server := (primary.turn clock authed command).server }.serveReplica clock := by
            simp only [Primary.step, next]
          exact ⟨serves ▸ served.serveReplica clock,
            Or.inr ⟨clock, authed, command, rfl, next, serves⟩⟩
      | again | closed | raised raised =>
          obtain ⟨after, extended⟩ :=
            served.extends_propagate (primary.turn clock authed command).propagated
          simp only [Primary.step, next]
          exact ⟨after, Or.inl extended⟩
  | heartbeat =>
      obtain ⟨after, extended⟩ := sound.extends_propagate [[.ofString "PING"]]
      exact ⟨after, Or.inl extended⟩
  | sweep clock => exact ⟨⟨sound.nodup, sound.mem_iff⟩, Or.inl (Extends.refl primary)⟩
  | pump number => exact (changed ReplicaLink.quiet_pumpTurn).imp_right Or.inl
  | pumpFails number => exact (changed ReplicaLink.quiet_pumpFails).imp_right Or.inl
  | flush number count =>
      exact (changed fun link => link.quiet_flush count).imp_right Or.inl
  | lose number => exact (changed ReplicaLink.quiet_lose).imp_right Or.inl
  | close number => exact (changed ReplicaLink.quiet_close).imp_right Or.inl

theorem sound_init (server : Server) : Sound (init server) := by
  refine ⟨List.nodup_nil, fun number => ⟨fun member => (by cases member), ?_⟩⟩
  rintro ⟨link, found, -⟩
  cases found

theorem run_append (primary : Primary) (steps : List LinkStep) (step : LinkStep) :
    primary.run (steps ++ [step]) = (primary.run steps).step step := by
  rw [run, List.foldl_append]
  rfl

theorem propagatedDuring_append (primary : Primary) (steps : List LinkStep) (step : LinkStep) :
    primary.propagatedDuring (steps ++ [step]) =
      primary.propagatedDuring steps ++ (primary.run steps).propagatedBy step := by
  induction steps generalizing primary with
  | nil => exact List.append_nil _
  | cons first rest ih =>
      rw [List.cons_append, propagatedDuring, ih, propagatedDuring, List.append_assoc]
      rfl

/-- The stream of a link that a `SYNC` command opens before some other turns. -/
def streamSince (primary : Primary) (clock : Clock) (authed : Bool) (command : List Bytes)
    (after : List LinkStep) : List Bytes :=
  (opening clock primary.server.store ++
    (primary.step (.command clock authed command)).propagatedDuring after).map encodeCommand

/-- A link goes back to the `SYNC` that opened it, and carries its stream. -/
def Carried (server : Server) (steps : List LinkStep) (number : Nat) (link : ReplicaLink) :
    Prop :=
  ∃ before clock authed command after,
    steps = before ++ .command clock authed command :: after ∧
    (((init server).run before).turn clock authed command).next = .syncing ∧
    ((init server).run before).links.length = number ∧
    Carries (((init server).run before).streamSince clock authed command after) link

/-- The stream of a link goes on in the next turn. -/
theorem Carried.extend {server : Server} {steps : List LinkStep} {number : Nat}
    {link later : ReplicaLink} (carried : Carried server steps number link) (step : LinkStep)
    (extended : ∀ stream, Carries stream link →
      Carries (stream ++ (((init server).run steps).propagatedBy step).map encodeCommand) later) :
    Carried server (steps ++ [step]) number later := by
  obtain ⟨before, clock, authed, command, after, rfl, syncing, numbered, carries⟩ := carried
  refine ⟨before, clock, authed, command, after ++ [step], by simp, syncing, numbered, ?_⟩
  have whole : (init server).run (before ++ .command clock authed command :: after) =
      (((init server).run before).step (.command clock authed command)).run after := by
    simp only [run, List.foldl_append, List.foldl_cons]
  have longer := extended _ carries
  rw [streamSince, ← List.map_append, List.append_assoc, whole] at longer
  rw [streamSince, propagatedDuring_append]
  exact longer

theorem carried_of_run (server : Server) (steps : List LinkStep) :
    Sound ((init server).run steps) ∧
      ∀ (number : Nat) (link : ReplicaLink),
        ((init server).run steps).links[number]? = some link →
          Carried server steps number link := by
  induction steps using List.reverseRecOn with
  | nil =>
      refine ⟨sound_init server, fun number link found => ?_⟩
      cases found
  | append_singleton steps step ih =>
      obtain ⟨sound, carried⟩ := ih
      rw [run_append]
      obtain ⟨after, extended | ⟨clock, authed, command, rfl, syncing, serves⟩⟩ := sound.step step
      · refine ⟨after, fun number link found => ?_⟩
        obtain ⟨before, present, longer⟩ := extended number link found
        exact (carried number before present).extend step longer
      · refine ⟨after, fun number link found => ?_⟩
        rw [serves, Primary.serveReplica] at found
        obtain ⟨sameStore, nothing⟩ := Server.handle_of_syncing _ _ _ _ syncing
        rcases Nat.lt_trichotomy number ((init server).run steps).links.length with
          older | rfl | later
        · rw [List.getElem?_append_left older] at found
          refine (carried number link found).extend _ fun stream carries => ?_
          rw [propagatedBy, turn, nothing, List.map_nil, List.append_nil]
          exact carries
        · rw [List.getElem?_concat_length] at found
          obtain rfl := Option.some.inj found
          refine ⟨steps, clock, authed, command, [], rfl, syncing, rfl, ?_⟩
          rw [streamSince, propagatedDuring, List.append_nil, ← sameStore]
          exact (carries_opening _ _).2
        · rw [List.getElem?_eq_none (by simpa using later)] at found
          cases found

/-- In any run, the set of replicas holds open links only, and every link goes back to a
`SYNC` in the run: its queue got `FLUSHDB`, the snapshot of the store at that instant and
all that was propagated from then on, in order and once, or the beginning of that if the
link is closed, and its socket got the beginning of the same stream. -/
theorem links_carry_stream (server : Server) (steps : List LinkStep) :
    (∀ number ∈ ((init server).run steps).replicas,
      ∃ link, ((init server).run steps).links[number]? = some link ∧ link.closed = false) ∧
    ∀ (number : Nat) (link : ReplicaLink),
      ((init server).run steps).links[number]? = some link →
        ∃ before clock authed command after,
          steps = before ++ .command clock authed command :: after ∧
          (((init server).run before).turn clock authed command).next = .syncing ∧
          ((init server).run before).links.length = number ∧
          let stream := ((init server).run before).streamSince clock authed command after
          link.queued <+: stream ∧ (link.closed = false → link.queued = stream) ∧
            link.transport.sent <+: link.queued.flatten ∧
            link.transport.sent <+: stream.flatten := by
  obtain ⟨sound, carried⟩ := carried_of_run server steps
  refine ⟨fun number member => (sound.mem_iff number).mp member, ?_⟩
  intro number link found
  obtain ⟨before, clock, authed, command, after, same, syncing, numbered, carries⟩ :=
    carried number link found
  refine ⟨before, clock, authed, command, after, same, syncing, numbered, carries.queued,
    carries.whole, carries.honest.sent_queued, ?_⟩
  obtain ⟨rest, whole⟩ := carries.queued
  rw [← whole, List.flatten_append]
  exact carries.honest.sent_queued.trans (List.prefix_append _ _)

end Primary

end MiniCache
