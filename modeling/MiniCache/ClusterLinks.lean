import MiniCache.ReplyRoundTrip
import MiniCache.ScatterGather
import MiniCache.Server

/-!
# The link to a shard

A connection of the cluster client with the shard behind it.  The client may send many
commands before it reads a reply; on a link where nothing fails it reads the replies that
it would have read had it waited for each before sending the next command.
-/

namespace MiniCache

/-- A connection to a shard, with the bytes that the shard has still to read and those that
the client has still to read. -/
structure Link where
  server : Server
  authed : Bool
  inbox : Bytes
  outbox : Bytes

namespace Link

/-- `writer.write`. -/
def write (link : Link) (data : Bytes) : Link := { link with inbox := link.inbox ++ data }

/-- A turn of the shard, which reads a command and answers it; none when the connection
does not go on. -/
def turn (clock : Clock) (link : Link) : Option Link :=
  match readCommand link.inbox with
  | .ok (some command, rest) =>
      let turn := link.server.handle clock link.authed command
      if turn.next = .again then
        some ⟨turn.server, turn.authed, rest, link.outbox ++ turn.replies.flatMap encode⟩
      else none
  | _ => none

/-- `[await read_reply(reader) for _ in batch]`. -/
def receive (count : Nat) (link : Link) : Option (List Value × Link) :=
  match readMany readReply count link.outbox with
  | .ok (replies, rest) => some (replies, { link with outbox := rest })
  | .error _ => none

/-- The `op` of `_roundtrip`, with the turn of the shard. -/
def request (clock : Clock) (parts : List Arg) (link : Link) : Option (Value × Link) :=
  ((link.write (encodeCommand parts)).turn clock).bind fun served =>
    match readReply served.outbox with
    | .ok (reply, rest) => some (reply, { served with outbox := rest })
    | .error _ => none

/-- Nothing is under way. -/
structure Quiet (link : Link) : Prop where
  inbox : link.inbox = []
  outbox : link.outbox = []

end Link

section LookAhead

variable {α : Type} {more : Bytes}

/-- The second reader reads, with more input, what the first one reads. -/
def ReadsWith (more : Bytes) (read other : Bytes → Except ReadError (α × Bytes)) : Prop :=
  ∀ ⦃input item rest⦄, read input = .ok (item, rest) →
    other (input ++ more) = .ok (item, rest ++ more)

theorem readLine_more {input line rest : Bytes} (done : readLine input = .ok (some line, rest))
    (more : Bytes) : readLine (input ++ more) = .ok (some line, rest ++ more) := by
  obtain ⟨rfl, lineOk⟩ := readLine_eq_some_iff.mp done
  exact readLine_eq_some_iff.mpr ⟨by simp, lineOk⟩

theorem readexactly_more (count : Nat) (more : Bytes) :
    ReadsWith more (readexactly count) (readexactly count) := by
  intro input data rest done
  obtain ⟨rfl, length⟩ := readexactly_eq_ok.mp done
  exact readexactly_eq_ok.mpr ⟨by simp, length⟩

theorem readMany_more {read other : Bytes → Except ReadError (α × Bytes)}
    (reads : ReadsWith more read other) (count : Nat) :
    ReadsWith more (readMany read count) (readMany other count) := by
  induction count with
  | zero =>
      rintro input items rest ⟨⟩
      rfl
  | succ count ih =>
      intro input items rest done
      obtain ⟨⟨item, middle⟩, first, done⟩ := Except.bind_eq_ok done
      obtain ⟨⟨others, last⟩, later, done⟩ := Except.bind_eq_ok done
      cases done
      rw [readMany]
      simp only [bind, Except.bind, reads first, ih later]

/-- One more item is read behind the others. -/
theorem readMany_concat {read : Bytes → Except ReadError (α × Bytes)} {count : Nat}
    {input middle rest : Bytes} {items : List α} {item : α}
    (before : readMany read count input = .ok (items, middle))
    (last : read middle = .ok (item, rest)) :
    readMany read (count + 1) input = .ok (items ++ [item], rest) := by
  induction count generalizing input items with
  | zero =>
      cases before
      simp only [readMany, bind, Except.bind, last, List.nil_append]
  | succ count ih =>
      obtain ⟨⟨first, afterFirst⟩, here, before⟩ := Except.bind_eq_ok before
      obtain ⟨⟨others, left⟩, later, done⟩ := Except.bind_eq_ok before
      cases done
      have both := ih later
      rw [readMany]
      simp only [bind, Except.bind, here, both, List.cons_append]

/-- With more fuel and more input a reply is read as before. -/
theorem readReplyWith_more {fuel enough : Nat} (within : fuel ≤ enough) (more : Bytes) :
    ReadsWith more (readReplyWith fuel) (readReplyWith enough) := by
  induction fuel generalizing enough with
  | zero => rintro input value rest ⟨⟩
  | succ fuel ih =>
      intro input value rest done
      obtain ⟨enough, rfl⟩ : ∃ inner, enough = inner + 1 := ⟨enough - 1, by omega⟩
      rw [readReplyWith] at done
      obtain ⟨⟨line, after⟩, first, done⟩ := Except.bind_eq_ok done
      rw [readReplyWith]
      cases line with
      | none => cases done
      | some line =>
          rw [readLine_more first more]
          dsimp only [bind, Except.bind] at done ⊢
          split at done
          · cases done
          · cases done
          · cases done
            rfl
          · cases done
            rfl
          · obtain ⟨number, parsed, done⟩ := Except.bind_eq_ok done
            cases done
            simp only [parsed]
          · obtain ⟨length, parsed, done⟩ := Except.bind_eq_ok done
            obtain ⟨⟨⟩, checked, done⟩ := Except.bind_eq_ok done
            simp only [parsed, checked]
            split_ifs at done ⊢ with isNull
            · cases done
              rfl
            · obtain ⟨⟨data, middle⟩, body, done⟩ := Except.bind_eq_ok done
              obtain ⟨⟨trailer, last⟩, ending, done⟩ := Except.bind_eq_ok done
              cases done
              simp only [readexactly_more _ _ body, readexactly_more _ _ ending]
          · obtain ⟨count, parsed, done⟩ := Except.bind_eq_ok done
            simp only [parsed]
            split_ifs at done ⊢ with isNull outside
            · cases done
              rfl
            · obtain ⟨⟨items, last⟩, body, done⟩ := Except.bind_eq_ok done
              cases done
              simp only [readMany_more (ih (Nat.le_of_succ_le_succ within)) _ body]
          · cases done

theorem readReply_more (more : Bytes) : ReadsWith more readReply readReply := by
  intro input value rest done
  refine readReplyWith_more ?_ more done
  rw [List.length_append]
  omega

end LookAhead

section Batches

open ScatterGather (serial serial_cons steps)

variable {clock : Clock} {link after next : Link} {parts : List Arg} {reply : Value}

namespace Link

/-- The shard reads a whole command and leaves what follows. -/
theorem turn_encodeCommand (deliverable : Deliverable (parts.map Arg.wire)) (server : Server)
    (authed : Bool) (rest outbox : Bytes) :
    turn clock ⟨server, authed, encodeCommand parts ++ rest, outbox⟩ =
      let turn := server.handle clock authed (parts.map Arg.wire)
      if turn.next = .again then
        some ⟨turn.server, turn.authed, rest, outbox ++ turn.replies.flatMap encode⟩
      else none := by
  rw [turn, readCommand_append deliverable]

/-- A request on a link whose shard has nothing to read. -/
theorem request_eq_some_iff (idle : link.inbox = [])
    (deliverable : Deliverable (parts.map Arg.wire)) :
    link.request clock parts = some (reply, next) ↔
      let turn := link.server.handle clock link.authed (parts.map Arg.wire)
      turn.next = .again ∧
        readReply (link.outbox ++ turn.replies.flatMap encode) = .ok (reply, next.outbox) ∧
        next = ⟨turn.server, turn.authed, [], next.outbox⟩ := by
  have taken := @turn_encodeCommand clock parts deliverable link.server link.authed []
    link.outbox
  rw [List.append_nil] at taken
  rw [request, write, idle, List.nil_append, taken]
  dsimp only
  split_ifs with again
  · rw [Option.bind_some]
    dsimp only
    split
    · rename_i found rest read
      rw [read]
      constructor
      · rintro ⟨⟩
        exact ⟨again, rfl, rfl⟩
      · rintro ⟨-, same, shape⟩
        cases same
        rw [shape]
    · rename_i failed
      rw [failed]
      simp
  · simp [again]

/-- A batch is answered as its commands would be one at a time, also behind replies that
the client has yet to read. -/
theorem batch_of_serial {batch : List (List Arg)} {replies earlier : List Value}
    {outbox : Bytes} {count : Nat}
    (deliverable : ∀ parts ∈ batch, Deliverable (parts.map Arg.wire))
    (idle : link.inbox = [])
    (done : serial (fun parts link => link.request clock parts) batch link =
      some (replies, after))
    (behind : readMany readReply count outbox = .ok (earlier, link.outbox)) :
    ∃ served : Link,
      steps (turn clock) batch.length
          ⟨link.server, link.authed, batch.flatMap encodeCommand, outbox⟩ = some served ∧
        readMany readReply (count + batch.length) served.outbox =
          .ok (earlier ++ replies, after.outbox) ∧
        after = { served with outbox := after.outbox } := by
  induction batch generalizing link replies earlier outbox count with
  | nil =>
      obtain ⟨rfl, rfl⟩ := Prod.mk.inj (Option.some.inj done)
      refine ⟨_, rfl, ?_, ?_⟩
      · rw [List.append_nil]
        exact behind
      · obtain ⟨server, authed, inbox, unread⟩ := link
        cases idle
        rfl
  | cons parts batch ih =>
      obtain ⟨reply, next, others, first, rest, rfl⟩ := serial_cons.mp done
      have here := deliverable parts (List.mem_cons_self ..)
      obtain ⟨again, read, shape⟩ := (request_eq_some_iff idle here).mp first
      have caughtUp := readMany_concat (readMany_more (readReply_more _) count behind) read
      rw [shape] at rest caughtUp
      obtain ⟨served, walked, received, same⟩ :=
        ih (fun other member => deliverable other (List.mem_cons_of_mem _ member)) rfl rest
          caughtUp
      refine ⟨served, ?_, ?_, same⟩
      · rw [List.length_cons, steps, List.flatMap_cons, turn_encodeCommand here]
        dsimp only
        rw [if_pos again, Option.bind_some]
        exact walked
      · rw [List.length_cons, ← Nat.add_assoc, Nat.add_right_comm, received, List.append_assoc,
          List.singleton_append]

/-- A batch sent at once gets the replies that its commands get one at a time. -/
theorem receive_batch {batch : List (List Arg)} {replies : List Value}
    (deliverable : ∀ parts ∈ batch, Deliverable (parts.map Arg.wire))
    (idle : link.inbox = [])
    (done : serial (fun parts link => link.request clock parts) batch link =
      some (replies, after)) :
    ∃ served : Link,
      steps (turn clock) batch.length (link.write (batch.flatMap encodeCommand)) =
          some served ∧
        served.receive batch.length = some (replies, after) := by
  obtain ⟨served, walked, received, same⟩ :=
    @batch_of_serial clock link after batch replies [] link.outbox 0 deliverable idle done rfl
  refine ⟨served, ?_, ?_⟩
  · rw [write, idle, List.nil_append]
    exact walked
  · rw [Nat.zero_add] at received
    rw [receive, received]
    dsimp only
    rw [List.nil_append, ← same]

end Link

end Batches

end MiniCache
