import MiniCache.Aof
import MiniCache.CommandOutcome
import MiniCache.ProtocolFrames

/-!
# Replay and repair of the append-only file

A replay scans the file for whole commands, dispatches them in order and cuts
the file where it stops.  The offset of the cut is computed from the encodings
of the commands, so it is right exactly when these take the bytes that the scan
consumed; for a file written by the program they do.
-/

namespace MiniCache

open RecordLog (Scan ProperPrefix wholeRecords)

section Loop

variable (clock : Clock)

/-- Dispatch commands in order, up to one that raises. -/
def replayCommands : List (List Bytes) → ReplayState → ReplayState × Option Raised
  | [], state => (state, none)
  | command :: rest, state =>
      let good := state.good + (encodeCommand (received command)).length
      if command = [] then
        replayCommands rest { state with good := good }
      else
        match dispatch clock state.store (received command) with
        | (.error raised, store) => (⟨store, state.count, good⟩, some raised)
        | (.ok _, store) => replayCommands rest ⟨store, state.count + 1, good⟩

/-- How the reading ends when no command raises. -/
def readingEnd : Option ReadError → ReplayEnd
  | none => .finished
  | some error => .stopped error

/-- The loop dispatches the commands that a scan of its input finds. -/
theorem replayLoop_of_scan {input left : Bytes} {commands : List (List Bytes)}
    {stop : Option ReadError} (scan : Scan readCommand input commands left stop)
    {fuel : Nat} (enough : commands.length < fuel) (state : ReplayState) :
    replayLoop clock fuel input state =
      ((replayCommands clock commands state).1,
        match (replayCommands clock commands state).2 with
        | some raised => .raised raised
        | none => readingEnd stop) := by
  induction scan generalizing fuel state with
  | finished done =>
      obtain ⟨fuel, rfl⟩ := Nat.exists_eq_succ_of_ne_zero (Nat.ne_of_gt enough)
      simp only [replayLoop, done]
      rfl
  | stopped done =>
      obtain ⟨fuel, rfl⟩ := Nat.exists_eq_succ_of_ne_zero (Nat.ne_of_gt enough)
      simp only [replayLoop, done]
      rfl
  | @record input rest left command commands stop done scan ih =>
      obtain ⟨fuel, rfl⟩ := Nat.exists_eq_succ_of_ne_zero (Nat.ne_of_gt (Nat.zero_lt_of_lt enough))
      have enoughLeft : commands.length < fuel := Nat.lt_of_succ_lt_succ enough
      simp only [replayLoop, done, replayCommands]
      split_ifs
      · exact ih enoughLeft _
      · cases dispatch clock state.store (received command) with
        | mk outcome store =>
            cases outcome with
            | error raised => rfl
            | ok reply => exact ih enoughLeft _

/-- All commands, whatever comes of each. -/
def dispatchAll (commands : List (List Bytes)) (store : Store) : Store :=
  commands.foldl (fun store command => (dispatch clock store (received command)).2) store

/-- The bytes that the encodings of commands take. -/
def encodedLength (commands : List (List Bytes)) : Nat :=
  (commands.flatMap fun command => encodeCommand (received command)).length

theorem encodedLength_cons (command : List Bytes) (rest : List (List Bytes)) :
    encodedLength (command :: rest) =
      (encodeCommand (received command)).length + encodedLength rest := by
  rw [encodedLength, List.flatMap_cons, List.length_append, encodedLength]

theorem dispatch_received_of_isOk (store : Store) {command : List Bytes}
    (fine : raises (received command) = false) :
    ∃ reply, dispatch clock store (received command) =
      (.ok reply, (dispatch clock store (received command)).2) := by
  have isOk := isOk_dispatch clock store (received command)
  rw [fine] at isOk
  cases outcome : dispatch clock store (received command) with
  | mk result left =>
      rw [outcome] at isOk
      cases result with
      | ok reply => exact ⟨reply, rfl⟩
      | error raised => cases isOk

/-- Commands that do not raise are all dispatched, counted and measured. -/
theorem replayCommands_of_fine {commands : List (List Bytes)}
    (fine : ∀ command ∈ commands, raises (received command) = false)
    (state : ReplayState) :
    replayCommands clock commands state =
      (⟨dispatchAll clock commands state.store,
        state.count + (commands.filter (· ≠ [])).length,
        state.good + encodedLength commands⟩, none) := by
  induction commands generalizing state with
  | nil => rfl
  | cons command rest ih =>
      have fineRest := fun other member => fine other (List.mem_cons_of_mem command member)
      unfold replayCommands
      rw [encodedLength_cons]
      dsimp only
      split_ifs with empty
      · subst empty
        rw [ih fineRest]
        simp [dispatchAll, dispatch, received, Nat.add_assoc]
      · obtain ⟨reply, done⟩ := dispatch_received_of_isOk clock state.store
          (fine command (List.mem_cons_self ..))
        rw [done]
        dsimp only
        rw [ih fineRest, List.filter_cons_of_pos (by simpa using empty)]
        simp [dispatchAll, Nat.add_assoc, Nat.add_comm 1]

/-- A command that raises stops the replay. -/
theorem replayCommands_of_raises {commands : List (List Bytes)}
    (raising : ∃ command ∈ commands, raises (received command) = true)
    (state : ReplayState) :
    ∃ raised, (replayCommands clock commands state).2 = some raised := by
  induction commands generalizing state with
  | nil => simp at raising
  | cons command rest ih =>
      unfold replayCommands
      dsimp only
      have isOk := isOk_dispatch clock state.store (received command)
      cases raisesHere : raises (received command) with
      | true =>
          have nonempty : command ≠ [] := by
            rintro rfl
            cases raisesHere
          rw [if_neg nonempty]
          rw [raisesHere] at isOk
          cases outcome : dispatch clock state.store (received command) with
          | mk result left =>
              rw [outcome] at isOk
              cases result with
              | error raised => exact ⟨raised, rfl⟩
              | ok reply => cases isOk
      | false =>
          have later : ∃ command ∈ rest, raises (received command) = true := by
            obtain ⟨other, member, raisesOther⟩ := raising
            rcases List.mem_cons.mp member with rfl | inRest
            · rw [raisesHere] at raisesOther
              cases raisesOther
            · exact ⟨other, inRest, raisesOther⟩
          split_ifs
          · exact ih later _
          · obtain ⟨reply, done⟩ :=
              dispatch_received_of_isOk clock state.store raisesHere
            rw [done]
            exact ih later _

end Loop

section Scanning

theorem readCommand_nil : readCommand [] = .ok (none, []) := rfl

theorem scan_count {input left : Bytes} {commands : List (List Bytes)}
    {stop : Option ReadError} (scan : Scan readCommand input commands left stop) :
    commands.length ≤ input.length := by
  induction scan with
  | finished _ => exact Nat.zero_le _
  | stopped _ => exact Nat.zero_le _
  | record done _ ih =>
      have shorter := readCommand_shorter done
      rw [List.length_cons]
      omega

theorem drain_of_nil {store : Store} (drained : store.evicted = []) :
    store.drainEvictions.2 = store := by
  obtain ⟨⟩ := store
  dsimp only at drained
  subst drained
  rfl

variable {clock : Clock} {store : Store} {file : AofFile} {left : Bytes}
  {commands : List (List Bytes)}

/-- A replay that reads to the end. -/
theorem replay_of_finished (drained : store.evicted = [])
    (scan : Scan readCommand file.content commands left none)
    (fine : ∀ command ∈ commands, raises (received command) = false) :
    replay clock store file =
      (.ok (commands.filter (· ≠ [])).length,
        (dispatchAll clock commands store).drainEvictions.2, file) := by
  unfold replay
  by_cases empty : file.content = []
  · rw [empty] at scan
    obtain ⟨rfl, -, -⟩ := scan.unique (Scan.finished readCommand_nil)
    rw [if_pos empty]
    simp [dispatchAll, drain_of_nil drained]
  · rw [if_neg empty]
    have enough := Nat.lt_succ_of_le (scan_count scan)
    simp only [replayLoop_of_scan clock scan enough, replayCommands_of_fine clock fine,
      readingEnd, Nat.zero_add]

/-- A replay that stops on what it cannot read. -/
theorem replay_of_stopped {error : ReadError}
    (scan : Scan readCommand file.content commands left (some error))
    (fine : ∀ command ∈ commands, raises (received command) = false) :
    replay clock store file =
      (.ok (commands.filter (· ≠ [])).length,
        (dispatchAll clock commands store).drainEvictions.2,
        file.discardTail (encodedLength commands)) := by
  unfold replay
  have nonempty : file.content ≠ [] := by
    intro empty
    rw [empty] at scan
    have := (scan.unique (Scan.finished readCommand_nil)).2.2
    cases this
  rw [if_neg nonempty]
  have enough := Nat.lt_succ_of_le (scan_count scan)
  simp only [replayLoop_of_scan clock scan enough, replayCommands_of_fine clock fine,
    readingEnd, Nat.zero_add]

/-- A replay that comes to a command that raises. -/
theorem replay_of_raises {stop : Option ReadError}
    (scan : Scan readCommand file.content commands left stop)
    (raising : ∃ command ∈ commands, raises (received command) = true) :
    ∃ raised, (replay clock store file).1 = .error raised := by
  unfold replay
  have nonempty : file.content ≠ [] := by
    intro empty
    rw [empty] at scan
    obtain ⟨rfl, -, -⟩ := scan.unique (Scan.finished readCommand_nil)
    obtain ⟨command, member, -⟩ := raising
    cases member
  have enough := Nat.lt_succ_of_le (scan_count scan)
  obtain ⟨raised, stops⟩ := replayCommands_of_raises clock raising ⟨store, 0, 0⟩
  rw [if_neg nonempty]
  simp only [replayLoop_of_scan clock scan enough, stops]
  exact ⟨raised, rfl⟩

end Scanning

section TornTail

/-- The file that the program writes for these commands. -/
def logOf (commands : List (List Bytes)) : Bytes :=
  commands.flatMap fun command => encodeCommand (received command)

/-- The commands whose encodings lie wholly inside the first bytes of the log. -/
def survivors (length : Nat) (commands : List (List Bytes)) : List (List Bytes) :=
  wholeRecords (fun command => encodeCommand (received command)) length commands

/-- Commands that a client can send. -/
def Sendable (commands : List (List Bytes)) : Prop :=
  ∀ command ∈ commands, command ≠ [] ∧ Deliverable command

instance (commands : List (List Bytes)) : Decidable (Sendable commands) :=
  inferInstanceAs (Decidable (∀ command ∈ commands, command ≠ [] ∧ Deliverable command))

theorem Sendable.append {commands further : List (List Bytes)}
    (sendable : Sendable commands) (furtherSendable : Sendable further) :
    Sendable (commands ++ further) := by
  intro command member
  rcases List.mem_append.mp member with first | second
  · exact sendable command first
  · exact furtherSendable command second

theorem Sendable.survivors {commands : List (List Bytes)} (sendable : Sendable commands)
    (length : Nat) : Sendable (survivors length commands) :=
  fun command member =>
    sendable command ((RecordLog.wholeRecords_prefix _ length commands).subset member)

theorem Sendable.filter {commands : List (List Bytes)} (sendable : Sendable commands) :
    commands.filter (· ≠ []) = commands :=
  List.filter_eq_self.mpr fun command member => by
    simpa using (sendable command member).1

theorem deliverable_received {command : List Bytes} (deliverable : Deliverable command) :
    Deliverable ((received command).map Arg.wire) := by
  rwa [received, map_wire_received]

/-- The reader finds the commands of a log and comes to what follows them. -/
theorem scan_logOf {commands : List (List Bytes)} (sendable : Sendable commands)
    {torn : Bytes} {stop : Option ReadError} (ends : Scan readCommand torn [] torn stop) :
    Scan readCommand (logOf commands ++ torn) commands torn stop := by
  have reads : ∀ command ∈ commands, ∀ rest,
      readCommand (encodeCommand (received command) ++ rest) =
        .ok (some (id command), rest) := by
    intro command member rest
    have read := readCommand_append
      (deliverable_received (sendable command member).2) rest
    rwa [received, map_wire_received] at read
  have scan := RecordLog.scan_log reads ends
  rwa [List.map_id] at scan

/-- What a cut leaves of a record is the end of the scan. -/
theorem scan_torn {commands : List (List Bytes)} (sendable : Sendable commands)
    {torn : Bytes}
    (isTorn : RecordLog.Torn (fun command => encodeCommand (received command)) commands torn) :
    ∃ stop, Scan readCommand torn [] torn stop ∧ (stop = none → torn = []) := by
  by_cases empty : torn = []
  · subst empty
    exact ⟨none, Scan.finished readCommand_nil, fun _ => rfl⟩
  · rcases isTorn with isEmpty | ⟨command, member, proper⟩
    · exact absurd isEmpty empty
    · obtain ⟨error, failed⟩ :=
        readCommand_torn (deliverable_received (sendable command member).2) empty proper
      exact ⟨some error, Scan.stopped failed, fun impossible => by cases impossible⟩

theorem truncate_append (first second : Bytes) :
    truncate (first ++ second) first.length = first := by
  simp [truncate]

theorem discardTail_append (first second : Bytes) (corrupt : Option Bytes) :
    (AofFile.mk (first ++ second) corrupt).discardTail first.length =
      ⟨first, some second⟩ := by
  simp [AofFile.discardTail, truncate_append]

theorem content_append_all (file : AofFile) (further : List (List Bytes)) :
    (further.foldl (fun file command => file.append (received command)) file).content =
      file.content ++ logOf further := by
  induction further generalizing file with
  | nil => simp [logOf]
  | cons command rest ih =>
      rw [List.foldl_cons, ih, AofFile.append, logOf, logOf, List.flatMap_cons,
        List.append_assoc]

variable {clock : Clock} {store : Store} {commands : List (List Bytes)}

/-- A log is replayed whole. -/
theorem replay_logOf (sendable : Sendable commands) (drained : store.evicted = [])
    (fine : ∀ command ∈ commands, raises (received command) = false)
    {file : AofFile} (content : file.content = logOf commands) :
    replay clock store file =
      (.ok commands.length, (dispatchAll clock commands store).drainEvictions.2,
        file) := by
  have scan : Scan readCommand file.content commands [] none := by
    rw [content, ← List.append_nil (logOf commands)]
    exact scan_logOf sendable (Scan.finished readCommand_nil)
  rw [replay_of_finished drained scan fine, sendable.filter]

/-- A cut log is replayed and repaired up to its last whole record. -/
theorem replay_cut (sendable : Sendable commands) (drained : store.evicted = [])
    {length : Nat}
    (fine : ∀ command ∈ survivors length commands, raises (received command) = false)
    {file : AofFile} (content : file.content = (logOf commands).take length) :
    (replay clock store file).1 = .ok (survivors length commands).length ∧
      (replay clock store file).2.1 =
        (dispatchAll clock (survivors length commands) store).drainEvictions.2 ∧
      (replay clock store file).2.2.content = logOf (survivors length commands) := by
  obtain ⟨torn, cut, isTorn⟩ := RecordLog.take_log
    (fun command => encodeCommand (received command)) length commands
  have contentEq : file.content = logOf (survivors length commands) ++ torn :=
    content.trans cut
  obtain ⟨stop, ends, whole⟩ := scan_torn sendable isTorn
  have scan : Scan readCommand file.content (survivors length commands) torn stop := by
    rw [contentEq]
    exact scan_logOf (sendable.survivors length) ends
  have count := (sendable.survivors length).filter
  cases stop with
  | none =>
      rw [replay_of_finished drained scan fine, count]
      refine ⟨rfl, rfl, ?_⟩
      rw [contentEq, whole rfl, List.append_nil]
  | some error =>
      rw [replay_of_stopped scan fine, count]
      refine ⟨rfl, rfl, ?_⟩
      simp only [AofFile.discardTail, contentEq]
      exact truncate_append _ torn

/-- Replaying a cut log applies the commands that survived whole and leaves a
file of just these, to which further ones can be added. -/
def RepairsExactly (fresh : Store) (clock later : Clock)
    (commands further : List (List Bytes)) (length : Nat) : Prop :=
  let kept := survivors length commands
  let first := replay clock fresh ⟨(logOf commands).take length, none⟩
  let second := replay later fresh
    (further.foldl (fun file command => file.append (received command)) first.2.2)
  first.1 = .ok kept.length ∧
    first.2.1 = (dispatchAll clock kept fresh).drainEvictions.2 ∧
    first.2.2.content = logOf kept ∧
    second.1 = .ok (kept ++ further).length ∧
    second.2.1 = (dispatchAll later (kept ++ further) fresh).drainEvictions.2

/-- The repair is exact as long as no surviving or further command raises. -/
theorem repairsExactly_iff (maxmemory : Nat) (policy : Policy) (clock later : Clock)
    (commands further : List (List Bytes)) (length : Nat)
    (sendable : Sendable commands) (furtherSendable : Sendable further) :
    RepairsExactly (Store.init maxmemory policy) clock later commands further length ↔
      ∀ command ∈ survivors length commands ++ further,
        raises (received command) = false := by
  let fresh := Store.init maxmemory policy
  let file : AofFile := ⟨(logOf commands).take length, none⟩
  have keptSendable := sendable.survivors length
  constructor
  · rintro ⟨firstDone, -, content, secondDone, -⟩
    by_contra raising
    simp only [not_forall, Bool.not_eq_false] at raising
    obtain ⟨command, member, raisesHere⟩ := raising
    -- The log that the second replay reads is whole.
    have scan : Scan readCommand
        (further.foldl (fun file command => file.append (received command))
          (replay clock fresh file).2.2).content
        (survivors length commands ++ further) [] none := by
      rw [content_append_all, content, logOf, logOf, ← List.flatMap_append]
      have whole := scan_logOf (keptSendable.append furtherSendable)
        (Scan.finished readCommand_nil)
      rwa [List.append_nil] at whole
    obtain ⟨raised, failed⟩ := @replay_of_raises later fresh _ _ _ _ scan
      ⟨command, member, raisesHere⟩
    rw [failed] at secondDone
    cases secondDone
  · intro fine
    have keptFine := fun command member =>
      fine command (List.mem_append_left further member)
    obtain ⟨count, applied, content⟩ :=
      @replay_cut clock fresh commands sendable rfl length keptFine file rfl
    have furtherContent : (further.foldl (fun file command => file.append (received command))
        (replay clock fresh file).2.2).content =
          logOf (survivors length commands ++ further) := by
      rw [content_append_all, content, logOf, logOf, logOf, List.flatMap_append]
    have second := @replay_logOf later fresh _ (keptSendable.append furtherSendable) rfl
      fine _ furtherContent
    exact ⟨count, applied, content, by rw [second], by rw [second]⟩

/-- A `SET` cut in its value leaves nothing, and a later one is replayed. -/
theorem repairsExactly_iff_tornSet :
    RepairsExactly (Store.init 0 .noeviction) Clock.epoch Clock.epoch
        [[encodeUtf8 "SET".toList, [107], [49, 13, 10]]] [[encodeUtf8 "DEL".toList, [107]]]
        30 ↔
      ∀ command ∈ survivors 30 [[encodeUtf8 "SET".toList, [107], [49, 13, 10]]] ++
          [[encodeUtf8 "DEL".toList, [107]]],
        raises (received command) = false :=
  repairsExactly_iff 0 .noeviction Clock.epoch Clock.epoch _ _ 30 (by decide +kernel)
    (by decide +kernel)

/-- A `PEXPIREAT` with an instant past every float ends the replay of a whole
log. -/
theorem not_repairsExactly_farDeadline :
    ¬ RepairsExactly (Store.init 0 .noeviction) Clock.epoch Clock.epoch
      [[encodeUtf8 "PEXPIREAT".toList, [107], 49 :: List.replicate 312 48]] [] 1000 := by
  intro exact
  have failed : (replay Clock.epoch (Store.init 0 .noeviction)
      ⟨(logOf [[encodeUtf8 "PEXPIREAT".toList, [107], 49 :: List.replicate 312 48]]).take
        1000, none⟩).1.isOk = false := by
    decide +kernel
  rw [exact.1] at failed
  cases failed

end TornTail

section AnyFile

/-- The file is a sequence of frames, and after it comes something that cannot
be read; no command before it raises. -/
def StopsAfter (content : Bytes) (frames : List Frame) (left : Bytes) : Prop :=
  content = frames.flatMap Frame.bytes ++ left ∧ (∀ frame ∈ frames, frame.Valid) ∧
    (∃ error, readCommand left = .error error) ∧
    ∀ frame ∈ frames, raises (received frame.command) = false

theorem scan_frames {frames : List Frame} (valid : ∀ frame ∈ frames, frame.Valid)
    {left : Bytes} {stop : Option ReadError} (ends : Scan readCommand left [] left stop) :
    Scan readCommand (frames.flatMap Frame.bytes ++ left) (frames.map Frame.command)
      left stop :=
  RecordLog.scan_log
    (fun frame member _ =>
      readCommand_eq_some_iff.mpr ⟨frame, valid frame member, rfl, rfl⟩) ends

/-- A scan goes from frame to frame. -/
theorem exists_frames {input left : Bytes} {commands : List (List Bytes)}
    {stop : Option ReadError} (scan : Scan readCommand input commands left stop) :
    ∃ frames : List Frame, (∀ frame ∈ frames, frame.Valid) ∧
      frames.map Frame.command = commands ∧ input = frames.flatMap Frame.bytes ++ left := by
  induction scan with
  | finished _ => exact ⟨[], by simp, rfl, rfl⟩
  | stopped _ => exact ⟨[], by simp, rfl, rfl⟩
  | record done _ ih =>
      obtain ⟨frame, valid, rfl, rfl⟩ := readCommand_eq_some_iff.mp done
      obtain ⟨frames, allValid, rfl, rfl⟩ := ih
      exact ⟨frame :: frames, by simpa using ⟨valid, allValid⟩, rfl, by simp⟩

theorem scan_left_error {input left : Bytes} {commands : List (List Bytes)}
    {error : ReadError} (scan : Scan readCommand input commands left (some error)) :
    readCommand left = .error error := by
  generalize stopEq : some error = stop at scan
  induction scan with
  | finished _ => cases stopEq
  | stopped failed =>
      cases stopEq
      exact failed
  | record _ _ ih => exact ih stopEq

theorem replayCommands_fine_of_none (clock : Clock) {commands : List (List Bytes)}
    {state : ReplayState} (done : (replayCommands clock commands state).2 = none) :
    ∀ command ∈ commands, raises (received command) = false := by
  by_contra raising
  simp only [not_forall, Bool.not_eq_false] at raising
  obtain ⟨command, member, raisesHere⟩ := raising
  obtain ⟨raised, stops⟩ :=
    replayCommands_of_raises clock ⟨command, member, raisesHere⟩ state
  rw [stops] at done
  cases done

/-- These are the files on which the loop of the replay stops with an error. -/
theorem stopsAfter_iff (clock : Clock) (store : Store) (content : Bytes) :
    (∃ frames left, StopsAfter content frames left) ↔
      ∃ error, (replayLoop clock (content.length + 1) content ⟨store, 0, 0⟩).2 =
        .stopped error := by
  constructor
  · rintro ⟨frames, left, rfl, valid, ⟨error, failed⟩, fine⟩
    have scan := scan_frames valid (Scan.stopped failed)
    have fineCommands : ∀ command ∈ frames.map Frame.command,
        raises (received command) = false := by
      simpa using fine
    rw [replayLoop_of_scan clock scan (Nat.lt_succ_of_le (scan_count scan)),
      replayCommands_of_fine clock fineCommands]
    exact ⟨error, rfl⟩
  · rintro ⟨error, stopped⟩
    obtain ⟨commands, left, stop, scan⟩ :=
      RecordLog.exists_scan readCommand_shorter content
    rw [replayLoop_of_scan clock scan (Nat.lt_succ_of_le (scan_count scan))] at stopped
    obtain ⟨frames, valid, rfl, contentEq⟩ := exists_frames scan
    cases outcome : (replayCommands clock (frames.map Frame.command) ⟨store, 0, 0⟩).2 with
    | some raised =>
        rw [outcome] at stopped
        cases stopped
    | none =>
        rw [outcome] at stopped
        have fine := replayCommands_fine_of_none clock outcome
        cases stop with
        | none => cases stopped
        | some error =>
            exact ⟨frames, left, contentEq, valid, ⟨error, scan_left_error scan⟩,
              by simpa using fine⟩

theorem length_frames (frames : List Frame) :
    ((frames.flatMap Frame.bytes).length : Int) =
      encodedLength (frames.map Frame.command) + (frames.map Frame.excess).sum := by
  induction frames with
  | nil => rfl
  | cons frame rest ih =>
      rw [List.flatMap_cons, List.length_append, List.map_cons, encodedLength_cons,
        List.map_cons, List.sum_cons, Nat.cast_add, ih, frame.length_bytes, received]
      push_cast
      ring

/-- Where a replay stops, it leaves the frames it read and saves all the rest. -/
def RepairKeepsBytes (clock : Clock) (store : Store) (file : AofFile) : Prop :=
  ∀ frames left, StopsAfter file.content frames left →
    let repaired := (replay clock store file).2.2
    repaired.content = frames.flatMap Frame.bytes ∧
      ∃ saved, repaired.corrupt = some saved ∧ repaired.content ++ saved = file.content

/-- The repair keeps all bytes of a file exactly when the frames before the stop
take, in total, the bytes of their encodings. -/
theorem repairKeepsBytes_iff (clock : Clock) (store : Store) (file : AofFile) :
    RepairKeepsBytes clock store file ↔
      ∀ frames left, StopsAfter file.content frames left →
        (frames.map Frame.excess).sum = 0 := by
  have repaired {frames : List Frame} {left : Bytes}
      (stops : StopsAfter file.content frames left) :
      (replay clock store file).2.2 =
        file.discardTail (encodedLength (frames.map Frame.command)) := by
    obtain ⟨content, valid, ⟨error, failed⟩, fine⟩ := stops
    have scan : Scan readCommand file.content (frames.map Frame.command) left
        (some error) := by
      rw [content]
      exact scan_frames valid (Scan.stopped failed)
    rw [replay_of_stopped scan (by simpa using fine)]
  constructor
  · intro keeps frames left stops
    have cut := (keeps frames left stops).1
    rw [repaired stops] at cut
    have lengths := congrArg List.length cut
    have cutLength : (file.discardTail
        (encodedLength (frames.map Frame.command))).content.length =
          encodedLength (frames.map Frame.command) := by
      simp only [AofFile.discardTail, truncate, List.length_append, List.length_take,
        List.length_replicate]
      omega
    have total := length_frames frames
    rw [cutLength] at lengths
    omega
  · intro balanced frames left stops
    have content := stops.1
    have total := length_frames frames
    rw [balanced frames left stops, add_zero] at total
    have exact : encodedLength (frames.map Frame.command) =
        (frames.flatMap Frame.bytes).length := by
      omega
    dsimp only
    rw [repaired stops, exact]
    obtain ⟨bytes, corrupt⟩ := file
    dsimp only at content
    subst content
    rw [discardTail_append]
    exact ⟨rfl, left, rfl, rfl⟩

/-- After an inline command, the repaired file is longer than what was read. -/
theorem not_repairKeepsBytes_inline :
    ¬ RepairKeepsBytes Clock.epoch (Store.init 0 .noeviction)
      ⟨encodeUtf8 "PING\r\n*x\r\n".toList, none⟩ := by
  intro keeps
  have stops : StopsAfter (encodeUtf8 "PING\r\n*x\r\n".toList)
      [.inline (encodeUtf8 "PING".toList)] (encodeUtf8 "*x\r\n".toList) := by
    refine ⟨by decide +kernel, ?_,
      ⟨.protocol "invalid array length: b'x'".toList, by rfl⟩, by decide +kernel⟩
    intro frame member
    rw [List.mem_singleton.mp member]
    exact ⟨⟨by decide +kernel, by decide +kernel⟩, by decide +kernel⟩
  have cut := (keeps _ _ stops).1
  revert cut
  decide +kernel

end AnyFile

end MiniCache
