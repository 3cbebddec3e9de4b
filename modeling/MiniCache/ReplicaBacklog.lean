import MiniCache.ReplicaHandover

/-!
# The backlog of a link

A link counts every payload that it has queued or is writing, and drops the replica when a
live command or a heartbeat takes the count over the limit.  The payloads of the snapshot
are forced past the limit, and stay in the count until the pump has written them.
-/

namespace MiniCache

/-- A turn of a link: a call of one of its methods, a turn of its pump, or something that
happens to its socket. -/
inductive LinkTurn
  | send (payload : Bytes) (force : Bool)
  | pump
  | pumpFails
  | flush (count : Nat)
  | lose
  | close
deriving DecidableEq

namespace ReplicaLink

def turn (link : ReplicaLink) : LinkTurn → ReplicaLink
  | .send payload force => link.send payload force
  | .pump => link.pumpTurn
  | .pumpFails => link.pumpFails
  | .flush count => link.flush count
  | .lose => link.lose
  | .close => link.close

/-- The size of the payload that the pump is writing. -/
def writing (link : ReplicaLink) : List Nat :=
  match link.pump with
  | .draining size => [size]
  | .getting | .ended => []

end ReplicaLink

/-- A link with what it has queued or is writing, oldest first: the size of each payload and
whether it was forced. -/
structure TrackedLink where
  link : ReplicaLink
  backlog : List (Nat × Bool)

namespace TrackedLink

def init (limit : Nat) : TrackedLink := ⟨.init limit, []⟩

def turn (tracked : TrackedLink) (turn : LinkTurn) : TrackedLink where
  link := tracked.link.turn turn
  backlog :=
    match turn with
    | .send payload force =>
        if (tracked.link.send payload force).closed then tracked.backlog
        else tracked.backlog ++ [(payload.length, force)]
    | .pump => tracked.backlog.drop tracked.link.writing.length
    | _ => tracked.backlog

def run (limit : Nat) (turns : List LinkTurn) : TrackedLink := turns.foldl turn (init limit)

/-- The bytes of the forced payloads, or of the others, in the backlog. -/
def bytes (tracked : TrackedLink) (forced : Bool) : Nat :=
  ((tracked.backlog.filter (·.2 = forced)).map Prod.fst).sum

/-- A live payload closes the link. -/
def Drops (tracked : TrackedLink) (payload : Bytes) : Prop :=
  tracked.link.closed = false ∧ (tracked.link.send payload false).closed = true

/-- The live payloads fit the limit, but not together with the forced ones that the pump
has not written yet. -/
def Burdened (tracked : TrackedLink) (payload : Bytes) : Prop :=
  tracked.link.closed = false ∧
    tracked.bytes false + payload.length ≤ tracked.link.limit ∧
    tracked.link.limit < tracked.bytes true + tracked.bytes false + payload.length

/-- While a link is open, its counter is the size of its backlog, which is what the pump is
writing and what is queued. -/
structure Counted (limit : Nat) (tracked : TrackedLink) : Prop where
  limited : tracked.link.limit = limit
  cancelled : tracked.link.cancelled = true → tracked.link.closed = true
  sizes : tracked.link.closed = false → tracked.backlog.map Prod.fst =
    tracked.link.writing ++ tracked.link.queue.map List.length
  pending : tracked.link.closed = false →
    tracked.link.pending = (tracked.backlog.map Prod.fst).sum

variable {limit : Nat} {tracked : TrackedLink}

theorem counted_init (limit : Nat) : Counted limit (init limit) :=
  ⟨rfl, nofun, fun _ => rfl, fun _ => rfl⟩

theorem bytes_add_bytes (tracked : TrackedLink) :
    tracked.bytes true + tracked.bytes false = (tracked.backlog.map Prod.fst).sum := by
  unfold bytes
  induction tracked.backlog with
  | nil => rfl
  | cons entry rest ih =>
      obtain ⟨size, forced⟩ := entry
      cases forced <;> simp [← ih] <;> omega

/-- A closed link needs to keep only its limit. -/
theorem Counted.of_closed (counted : Counted limit tracked) {other : TrackedLink}
    (limited : other.link.limit = tracked.link.limit) (closed : other.link.closed = true) :
    Counted limit other := by
  refine ⟨limited.trans counted.limited, fun _ => closed, ?_, ?_⟩ <;>
  · intro isOpen
    rw [closed] at isOpen
    cases isOpen

theorem Counted.of_same (counted : Counted limit tracked) {other : TrackedLink}
    (limited : other.link.limit = tracked.link.limit)
    (closed : other.link.closed = tracked.link.closed)
    (cancelled : other.link.cancelled = tracked.link.cancelled)
    (pending : other.link.pending = tracked.link.pending)
    (queue : other.link.queue = tracked.link.queue) (pump : other.link.pump = tracked.link.pump)
    (backlog : other.backlog = tracked.backlog) : Counted limit other := by
  refine ⟨limited.trans counted.limited, ?_, ?_, ?_⟩
  · rw [cancelled, closed]
    exact counted.cancelled
  · rw [closed, backlog, queue, ReplicaLink.writing, pump]
    exact counted.sizes
  · rw [closed, backlog, pending]
    exact counted.pending

theorem Counted.send (counted : Counted limit tracked) (payload : Bytes) (force : Bool) :
    Counted limit (tracked.turn (.send payload force)) := by
  have backlog (sent : ReplicaLink) (same : tracked.link.send payload force = sent) :
      (tracked.turn (.send payload force)).backlog =
        if sent.closed then tracked.backlog
        else tracked.backlog ++ [(payload.length, force)] := by
    rw [← same]
    rfl
  cases closed : tracked.link.closed with
  | true =>
      have same := tracked.link.send_of_closed payload force closed
      exact counted.of_closed (congrArg ReplicaLink.limit same)
        ((congrArg ReplicaLink.closed same).trans closed)
  | false =>
      by_cases full : tracked.link.limit < tracked.link.pending + payload.length ∧ force = false
      · have drops : (tracked.link.send payload force).closed = true := by
          simp [ReplicaLink.send, closed, full, ReplicaLink.close, ReplicaLink.shut]
        refine counted.of_closed ?_ drops
        change (tracked.link.send payload force).limit = _
        simp [ReplicaLink.send, closed, full, ReplicaLink.close, ReplicaLink.shut]
      · have sent : tracked.link.send payload force =
            { tracked.link with
              pending := tracked.link.pending + payload.length
              queue := tracked.link.queue ++ [payload] } := by
          simp only [ReplicaLink.send, closed, Bool.false_eq_true, if_false, if_neg full]
        have grown := backlog _ sent
        simp only [closed, Bool.false_eq_true, if_false] at grown
        have link : (tracked.turn (.send payload force)).link = _ := sent
        refine ⟨?_, ?_, ?_, ?_⟩ <;> rw [link]
        · exact counted.limited
        · exact counted.cancelled
        · intro isOpen
          rw [grown, List.map_append, counted.sizes isOpen]
          simp [ReplicaLink.writing]
        · intro isOpen
          rw [grown, List.map_append, List.sum_append, ← counted.pending isOpen]
          simp

theorem closed_endPump (link : ReplicaLink) : link.endPump.closed = true := by
  unfold ReplicaLink.endPump
  dsimp only
  split_ifs with closed
  · exact closed
  · rfl

theorem limit_endPump (link : ReplicaLink) : link.endPump.limit = link.limit := by
  unfold ReplicaLink.endPump
  dsimp only
  split_ifs <;> rfl

theorem Counted.pump (counted : Counted limit tracked) :
    Counted limit (tracked.turn .pump) := by
  have ends (same : tracked.link.pumpTurn = tracked.link.endPump) :
      Counted limit (tracked.turn .pump) :=
    counted.of_closed ((congrArg ReplicaLink.limit same).trans (limit_endPump _))
      ((congrArg ReplicaLink.closed same).trans (closed_endPump _))
  have backlog : (tracked.turn .pump).backlog =
      tracked.backlog.drop tracked.link.writing.length := rfl
  have link : (tracked.turn .pump).link = tracked.link.pumpTurn := rfl
  have sizes := counted.sizes
  have pending := counted.pending
  unfold ReplicaLink.writing at sizes backlog
  cases pump : tracked.link.pump with
  | ended =>
      rw [pump] at backlog
      have same : tracked.link.pumpTurn = tracked.link := by simp [ReplicaLink.pumpTurn, pump]
      rw [same] at link
      exact counted.of_same (by rw [link]) (by rw [link]) (by rw [link]) (by rw [link])
        (by rw [link]) (by rw [link]) backlog
  | getting =>
      rw [pump] at backlog sizes
      cases cancelled : tracked.link.cancelled with
      | true => exact ends (by simp [ReplicaLink.pumpTurn, pump, cancelled])
      | false =>
          cases queue : tracked.link.queue with
          | nil =>
              have same : tracked.link.pumpTurn = tracked.link := by
                simp [ReplicaLink.pumpTurn, pump, cancelled, queue]
              rw [same] at link
              exact counted.of_same (by rw [link]) (by rw [link]) (by rw [link]) (by rw [link])
                (by rw [link]) (by rw [link]) backlog
          | cons payload rest =>
              rw [queue] at sizes
              simp only [ReplicaLink.pumpTurn, pump, cancelled, queue, Bool.false_eq_true,
                if_false] at link
              refine ⟨?_, ?_, ?_, ?_⟩ <;> rw [link]
              · exact counted.limited
              · nofun
              · intro isOpen
                rw [backlog]
                exact sizes isOpen
              · intro isOpen
                rw [backlog]
                exact pending isOpen
  | draining size =>
      rw [pump] at backlog sizes
      cases cancelled : tracked.link.cancelled with
      | true => exact ends (by simp [ReplicaLink.pumpTurn, pump, cancelled])
      | false =>
          simp only [ReplicaLink.pumpTurn, pump, cancelled, Bool.false_eq_true, if_false] at link
          have written (isOpen : tracked.link.closed = false) :
              (tracked.turn .pump).backlog.map Prod.fst =
                tracked.link.queue.map List.length := by
            rw [backlog, List.map_drop, sizes isOpen]
            rfl
          refine ⟨?_, ?_, ?_, ?_⟩ <;> rw [link]
          · exact counted.limited
          · nofun
          · exact written
          · intro isOpen
            change tracked.link.pending - size = _
            rw [written isOpen, pending isOpen, sizes isOpen]
            simp

theorem Counted.turn (counted : Counted limit tracked) (turn : LinkTurn) :
    Counted limit (tracked.turn turn) := by
  cases turn with
  | send payload force => exact counted.send payload force
  | pump => exact counted.pump
  | pumpFails =>
      cases pump : tracked.link.pump with
      | ended =>
          have same : tracked.link.pumpFails = tracked.link := by
            simp [ReplicaLink.pumpFails, pump]
          have link : (tracked.turn .pumpFails).link = tracked.link := same
          exact counted.of_same (by rw [link]) (by rw [link]) (by rw [link]) (by rw [link])
            (by rw [link]) (by rw [link]) rfl
      | getting | draining size =>
          have same : tracked.link.pumpFails = tracked.link.endPump := by
            simp [ReplicaLink.pumpFails, pump]
          exact counted.of_closed ((congrArg ReplicaLink.limit same).trans (limit_endPump _))
            ((congrArg ReplicaLink.closed same).trans (closed_endPump _))
  | flush count => exact counted.of_same rfl rfl rfl rfl rfl rfl rfl
  | lose => exact counted.of_same rfl rfl rfl rfl rfl rfl rfl
  | close =>
      have link : (tracked.turn .close).link = tracked.link.close := rfl
      refine counted.of_closed ?_ ?_ <;> rw [link, ReplicaLink.close] <;> split_ifs with closed
      · rfl
      · rfl
      · exact closed
      · rfl

theorem counted_run (limit : Nat) (turns : List LinkTurn) : Counted limit (run limit turns) := by
  refine List.foldlRecOn turns turn (counted_init limit) ?_
  intro tracked counted turn _
  exact counted.turn turn

/-- A live payload closes an open link exactly when the whole backlog with it exceeds the
limit. -/
theorem Counted.drops_iff (counted : Counted limit tracked) (payload : Bytes) :
    tracked.Drops payload ↔ tracked.link.closed = false ∧
      limit < tracked.bytes true + tracked.bytes false + payload.length := by
  refine and_congr_right fun isOpen => ?_
  rw [bytes_add_bytes, ← counted.pending isOpen, ← counted.limited]
  by_cases full : tracked.link.limit < tracked.link.pending + payload.length
  · simp [ReplicaLink.send, isOpen, full, ReplicaLink.close, ReplicaLink.shut]
  · simp [ReplicaLink.send, isOpen, full]

/-- A drop is due to the live payloads unless the link is burdened. -/
theorem Counted.justified_iff (counted : Counted limit tracked) (payload : Bytes) :
    (tracked.Drops payload → limit < tracked.bytes false + payload.length) ↔
      ¬tracked.Burdened payload := by
  rw [counted.drops_iff, Burdened, counted.limited, ← not_lt]
  tauto

/-- In any run of a link, what is forced does not close it.  Every live payload that closes
it takes the live backlog over the limit, if and only if no live payload meets a link that
is burdened. -/
theorem drops_justified_iff (limit : Nat) (turns : List LinkTurn) :
    (∀ before payload after, turns = before ++ .send payload true :: after →
      ((run limit before).link.send payload true).closed = (run limit before).link.closed) ∧
    ((∀ before payload after, turns = before ++ .send payload false :: after →
        (run limit before).Drops payload →
          limit < (run limit before).bytes false + payload.length) ↔
      ∀ before payload after, turns = before ++ .send payload false :: after →
        ¬(run limit before).Burdened payload) := by
  constructor
  · intro before payload after _
    cases closed : (run limit before).link.closed with
    | true => rw [ReplicaLink.send_of_closed payload true closed, closed]
    | false => exact ReplicaLink.send_force payload closed
  · refine forall_congr' fun before => forall_congr' fun payload => forall_congr' fun after =>
      imp_congr_right fun _ => ?_
    exact (counted_run limit before).justified_iff payload

/-- A snapshot of thirty bytes, and a heartbeat before the pump has written it. -/
def largeSnapshot : List LinkTurn :=
  [.send (List.replicate 30 0) true, .send (encodeCommand [.ofString "PING"]) false]

/-- The heartbeat drops a replica that owes nothing but its snapshot. -/
theorem not_justified_largeSnapshot :
    ¬∀ before payload after, largeSnapshot = before ++ .send payload false :: after →
      (run 20 before).Drops payload →
        20 < (run 20 before).bytes false + payload.length := by
  intro justified
  have large := justified [.send (List.replicate 30 0) true] (encodeCommand [.ofString "PING"]) []
    rfl ⟨by decide +kernel, by decide +kernel⟩
  exact absurd large (by decide +kernel)

end TrackedLink

namespace Primary

variable {primary other : Primary}

/-- Every link of the second state comes from one of the first by turns that force
nothing. -/
def Unforced (primary other : Primary) : Prop :=
  ∀ (number : Nat) (link : ReplicaLink), other.links[number]? = some link →
    ∃ before, primary.links[number]? = some before ∧
      ∃ turns : List LinkTurn, (∀ payload, .send payload true ∉ turns) ∧
        link = turns.foldl ReplicaLink.turn before

theorem Unforced.refl (primary : Primary) : Unforced primary primary :=
  fun _ link found => ⟨link, found, [], by simp, rfl⟩

theorem unforced_update {number : Nat} (turn : LinkTurn)
    (live : ∀ payload, turn ≠ .send payload true) :
    Unforced primary (primary.update number (·.turn turn)) := by
  intro index link found
  rw [links_update] at found
  split_ifs at found with same
  · obtain ⟨before, present, rfl⟩ := Option.map_eq_some_iff.mp found
    exact ⟨before, same ▸ present, [turn],
      fun payload member => live payload (List.mem_singleton.mp member).symm, rfl⟩
  · exact Unforced.refl primary index link found

theorem Sound.unforced_propagate (sound : Sound primary) (commands : List (List Arg)) :
    Unforced primary (commands.foldl Primary.propagate primary) := by
  induction commands generalizing primary with
  | nil => exact Unforced.refl primary
  | cons command rest ih =>
      intro number link found
      obtain ⟨middle, between, turns, live, rfl⟩ :=
        ih (sound.propagate command) number link found
      rw [sound.links_propagate] at between
      obtain ⟨before, present, rfl⟩ := Option.map_eq_some_iff.mp between
      refine ⟨before, present, .send (encodeCommand command) false :: turns, ?_, rfl⟩
      intro payload member
      rcases List.mem_cons.mp member with impossible | later
      · cases impossible
      · exact live payload later

theorem Sound.unforced_step (sound : Sound primary) (step : LinkStep)
    (serves : ∀ clock authed command, step = .command clock authed command →
      (primary.turn clock authed command).next ≠ .syncing) :
    Unforced primary (primary.step step) := by
  cases step with
  | command clock authed command =>
      have served : Sound { primary with server := (primary.turn clock authed command).server } :=
        ⟨sound.nodup, sound.mem_iff⟩
      have live := served.unforced_propagate (primary.turn clock authed command).propagated
      cases next : (primary.turn clock authed command).next with
      | syncing => exact absurd next (serves clock authed command rfl)
      | again | closed | raised raised =>
          simp only [Primary.step, next]
          exact live
  | heartbeat => exact sound.unforced_propagate [[.ofString "PING"]]
  | sweep clock => exact Unforced.refl primary
  | pump number => exact unforced_update .pump (by simp)
  | pumpFails number => exact unforced_update .pumpFails (by simp)
  | flush number count => exact unforced_update (.flush count) (by simp)
  | lose number => exact unforced_update .lose (by simp)
  | close number => exact unforced_update .close (by simp)

/-- Every link of a server is a link on which `FLUSHDB` and a snapshot were forced at first
and nothing later. -/
theorem turns_of_run (server : Server) (steps : List LinkStep) (number : Nat)
    (link : ReplicaLink) (found : ((init server).run steps).links[number]? = some link) :
    ∃ clock store turns, (∀ payload, .send payload true ∉ turns) ∧
      link = (TrackedLink.run REPLICA_BACKLOG_LIMIT
        ((opening clock store).map (fun command => .send (encodeCommand command) true) ++
          turns)).link := by
  have erased (limit : Nat) (turns : List LinkTurn) :
      (TrackedLink.run limit turns).link = turns.foldl ReplicaLink.turn (.init limit) := by
    exact (@List.foldl_hom _ _ _ TrackedLink.link TrackedLink.turn ReplicaLink.turn turns
      (.init limit) fun _ _ => rfl).symm
  simp only [erased, List.foldl_append, List.foldl_map]
  induction steps using List.reverseRecOn generalizing number link with
  | nil => cases found
  | append_singleton steps step ih =>
      rw [run_append] at found
      have sound := (carried_of_run server steps).1
      by_cases serving : ∃ clock authed command, step = .command clock authed command ∧
          (((init server).run steps).turn clock authed command).next = .syncing
      · obtain ⟨clock, authed, command, rfl, syncing⟩ := serving
        simp only [Primary.step, syncing, Primary.serveReplica] at found
        rcases Nat.lt_trichotomy number ((init server).run steps).links.length with
          older | rfl | later
        · rw [List.getElem?_append_left older] at found
          exact ih number link found
        · rw [List.getElem?_concat_length] at found
          obtain rfl := Option.some.inj found
          exact ⟨clock, _, [], by simp, rfl⟩
        · rw [List.getElem?_eq_none (by simpa using later)] at found
          cases found
      · obtain ⟨before, present, turns, live, rfl⟩ := sound.unforced_step step
          (fun clock authed command same syncing => serving ⟨clock, authed, command, same, syncing⟩)
          number link found
        obtain ⟨clock, store, earlier, liveEarlier, rfl⟩ := ih number before present
        exact ⟨clock, store, earlier ++ turns, fun payload member =>
          (List.mem_append.mp member).elim (liveEarlier payload) (live payload),
          List.foldl_append.symm⟩

end Primary

end MiniCache
