import MiniCache.AofDurability
import MiniCache.ReplicaSnapshot

/-!
# Convergence of a replica

A primary without a memory limit and one replica that applies each command of the
stream at the instant at which the primary executed it.  Deadlines that came with a
snapshot are late on the replica, so that a key may be live there alone for a
second.  As long as no command that reads such a key is sent in that second, the
replica shows what the primary shows, but for such keys.
-/

namespace MiniCache

open ExpiringMap (Effect Trails applyAll)

/-- A primary, and a replica that streams from it while its link is up. -/
structure Pair where
  primary : Server
  replica : Server

/-- What can happen: a step of one of the two servers, a connection of the replica
with its `SYNC`, and the end of a connection. -/
inductive PairStep
  | onPrimary (step : ServerStep)
  | onReplica (step : ServerStep)
  | sync (authed : Bool)
  | disconnect

namespace Pair

section Steps

/-- The link goes down on both sides. -/
def unlink (pair : Pair) : Pair :=
  if pair.replica.linkUp then
    ⟨{ pair.primary with replicas := pair.primary.replicas - 1 },
      { pair.replica with linkUp := false }⟩
  else pair

/-- `Server._propagate`, with the loop of the replica at the other end: a command
that it cannot apply ends the connection. -/
def propagate (clock : Clock) (pair : Pair) (commands : List (List Arg)) : Pair :=
  if pair.replica.linkUp then
    let delivered := deliverAll clock commands pair.replica.store
    let applied : Pair := { pair with replica := { pair.replica with store := delivered.2 } }
    if delivered.1 then applied else applied.unlink
  else pair

/-- `Server._serve_replica`, up to the stream. -/
def serveReplica (clock : Clock) (pair : Pair) : Pair :=
  let snapshot := buildSnapshotCommands clock pair.primary.store
  let linked : Pair :=
    ⟨{ pair.primary with store := snapshot.2, replicas := pair.primary.replicas + 1 },
      { pair.replica with linkUp := true }⟩
  linked.propagate clock ([.ofString "FLUSHDB"] :: snapshot.1)

def syncCommand : List Bytes := [encodeUtf8 "SYNC".toList]

def step (clock : Clock) (pair : Pair) : PairStep → Pair
  | .onPrimary (.command authed request) =>
      let turn := pair.primary.handle clock authed request
      { pair with primary := turn.server }.propagate clock turn.propagated
  | .onPrimary .sweep => { pair with primary := pair.primary.sweepTurn clock }
  | .onReplica step => { pair with replica := pair.replica.step clock step }
  | .sync authed =>
      let apart := pair.unlink
      let turn := apart.primary.handle clock authed syncCommand
      let asked : Pair := { apart with primary := turn.server }
      if turn.next = .syncing then asked.serveReplica clock else asked
  | .disconnect => pair.unlink

def run (pair : Pair) : List (Clock × PairStep) → Pair
  | [] => pair
  | (clock, step) :: rest => (pair.step clock step).run rest

/-- What the commands of the primary leave, with the keys that have expired since. -/
def plainStep (clock : Clock) (pair : Pair) (plain : PlainMap) : PairStep → PlainMap
  | .onPrimary (.command authed request) =>
      if pair.primary.Logs clock authed request then
        applyAll clock.time (commandEffects clock.time plain (received request)) plain
      else plain
  | _ => plain

def plainRun (pair : Pair) (plain : PlainMap) : List (Clock × PairStep) → PlainMap
  | [] => plain
  | (clock, step) :: rest =>
      (pair.step clock step).plainRun (pair.plainStep clock plain step) rest

end Steps

end Pair

section Runs

def ServerStep.ShortLived : ServerStep → Prop
  | .command _ request => MiniCache.ShortLived request
  | .sweep => True

instance : DecidablePred ServerStep.ShortLived
  | .command _ request => inferInstanceAs (Decidable (MiniCache.ShortLived request))
  | .sweep => inferInstanceAs (Decidable True)

/-- A step that clients of the two servers can make, with short expiry arguments. -/
def PairStep.Client : PairStep → Prop
  | .onPrimary step => step.Client ∧ step.ShortLived
  | .onReplica step => step.Client
  | .sync _ | .disconnect => True

instance : DecidablePred PairStep.Client := fun step => by
  cases step <;> unfold PairStep.Client <;> infer_instance

/-- The steps of two processes with equal clocks, from one moment to another. -/
def PairPaced (offset since : Time) : List (Clock × PairStep) → Time → Prop
  | [], moment => since ≤ moment
  | (clock, step) :: rest, moment =>
      clock.offset = offset ∧ since ≤ clock.time ∧ step.Client ∧
        PairPaced offset clock.time rest moment

instance (offset since : Time) (steps : List (Clock × PairStep)) (moment : Time) :
    Decidable (PairPaced offset since steps moment) := by
  induction steps generalizing since with
  | nil => unfold PairPaced; infer_instance
  | cons entry rest ih => unfold PairPaced; infer_instance

/-- A step that sends nothing that the replica would take otherwise: every command
sent finds the key that it reads live on both sides, or on neither. -/
def PairStep.Agrees (clock : Clock) (pair : Pair) : PairStep → Prop
  | .onPrimary (.command authed request) =>
      pair.replica.linkUp = true → pair.primary.Logs clock authed request →
        ∀ effect ∈ commandEffects clock.time (fun _ => none) (received request),
          effect.Agrees clock.time (pair.primary.finds clock) (pair.replica.finds clock)
  | _ => True

instance (clock : Clock) (pair : Pair) : DecidablePred (PairStep.Agrees clock pair)
  | .onPrimary (.command authed request) =>
      inferInstanceAs (Decidable (pair.replica.linkUp = true →
        pair.primary.Logs clock authed request →
          ∀ effect ∈ commandEffects clock.time (fun _ => none) (received request),
            effect.Agrees clock.time (pair.primary.finds clock) (pair.replica.finds clock)))
  | .onPrimary .sweep | .onReplica _ | .sync _ | .disconnect => inferInstanceAs (Decidable True)

def AgreesAll : Pair → List (Clock × PairStep) → Prop
  | _, [] => True
  | pair, (clock, step) :: rest =>
      step.Agrees clock pair ∧ AgreesAll (pair.step clock step) rest

instance (pair : Pair) (steps : List (Clock × PairStep)) : Decidable (AgreesAll pair steps) := by
  induction steps generalizing pair with
  | nil => unfold AgreesAll; infer_instance
  | cons entry rest ih => unfold AgreesAll; infer_instance

/-- A primary and a replica that have just been started, not connected yet. -/
structure FreshPair (pair : Pair) : Prop where
  primary : ∃ policy, pair.primary.store = Store.init 0 policy
  primaryOf : pair.primary.replicaOf = none
  replica : ∃ policy, pair.replica.store = Store.init 0 policy
  replicaOf : pair.replica.replicaOf.isSome = true
  apart : pair.replica.linkUp = false

/-- The replica shows what the primary shows, and keys that expired there no more
than a second ago. -/
structure Converged (clock : Clock) (pair : Pair) (plain : PlainMap) : Prop where
  present : ∀ key value deadline,
    (pair.primary.store.live clock.monotonic).get? key = some (value, deadline) →
      ∃ copyDeadline,
        (pair.replica.store.live clock.monotonic).get? key = some (value, copyDeadline)
  recent : ∀ key, ((pair.replica.store.live clock.monotonic).get? key).isSome →
    ((pair.primary.store.live clock.monotonic).get? key).isSome ∨
      ∃ value limit, plain key = some (value, some limit) ∧
        limit ≤ clock.time ∧ clock.time ≤ limit + 1

end Runs

section Invariant

variable {clock : Clock} {offset since : Time} {pair : Pair} {plain : PlainMap}

/-- A replica's clients leave its contents and its link alone. -/
theorem observes_replica {server : Server} (isReplica : server.replicaOf.isSome = true)
    (authed : Bool) {command : List Bytes} (ascii : AsciiNamed command) :
    Observes clock.monotonic server.store (server.handle clock authed command).server.store ∧
      (server.handle clock authed command).server.replicaOf = server.replicaOf := by
  rcases Server.handle_cases clock server authed command with
    quiet | ⟨-, readonly, -, executes⟩
  · exact ⟨quiet.observes, quiet.replicaOf⟩
  · have refused : isWriteCommand (serverName command) ≠ true :=
      fun isWrite => readonly ⟨isReplica, isWrite⟩
    obtain ⟨left, -⟩ := Server.execute_of_refused clock
      { server with commandsProcessed := server.commandsProcessed + 1 } authed
      (show ¬ (Accepted (dispatch clock server.store (received command)).1 ∧
        isWriteCommand (serverName command) = true) from fun both => refused both.2)
    rw [executes, left]
    refine ⟨observes_of_reads ?_, rfl⟩
    intro found known writes
    rw [isWriteCommand_serverName ascii known] at refused
    exact refused (decide_eq_true writes)

/-- What holds along a run of a pair: the primary is a plain map, and while the link
is up the replica is one that trails it. -/
structure Mirrored (offset since : Time) (pair : Pair) (plain : PlainMap) : Prop where
  primaryOf : pair.primary.replicaOf = none
  replicaOf : pair.replica.replicaOf.isSome = true
  represents : ∀ clock : Clock, clock.offset = offset → since ≤ clock.time →
    Represents clock pair.primary.store plain
  transferable : ∀ key, ∀ content ∈ plain key, Transferable key content
  copies : ∃ copy, (∀ clock : Clock, clock.offset = offset → since ≤ clock.time →
      Represents clock pair.replica.store copy) ∧
    (pair.replica.linkUp = true → ∀ key, Trails Lags since (plain key) (copy key))

theorem FreshPair.mirrored (fresh : FreshPair pair) (offset since : Time) :
    Mirrored offset since pair (fun _ => none) := by
  obtain ⟨policy, store⟩ := fresh.primary
  obtain ⟨copyPolicy, copyStore⟩ := fresh.replica
  refine ⟨fresh.primaryOf, fresh.replicaOf, ?_, fun _ _ impossible => (by cases impossible),
    fun _ => none, ?_, ?_⟩
  · intro clock _ _
    rw [store]
    exact represents_init clock policy
  · intro clock _ _
    rw [copyStore]
    exact represents_init clock copyPolicy
  · intro up
    rw [fresh.apart] at up
    cases up

/-- The replica's side of a step that leaves it alone. -/
theorem Mirrored.rest (mirrored : Mirrored offset since pair plain) (inOrder : since ≤ clock.time) :
    ∃ copy, (∀ other : Clock, other.offset = offset → clock.time ≤ other.time →
        Represents other pair.replica.store copy) ∧
      (pair.replica.linkUp = true → ∀ key, Trails Lags clock.time (plain key) (copy key)) := by
  obtain ⟨copy, represents, trails⟩ := mirrored.copies
  exact ⟨copy, fun other same after => represents other same (le_trans inOrder after),
    fun up key => (trails up key).mono inOrder⟩

theorem unlink_frame (pair : Pair) :
    pair.unlink.primary.store = pair.primary.store ∧
      pair.unlink.primary.replicaOf = pair.primary.replicaOf ∧
      pair.unlink.replica.replicaOf = pair.replica.replicaOf ∧
      pair.unlink.replica.store = pair.replica.store ∧ pair.unlink.replica.linkUp = false := by
  unfold Pair.unlink
  split_ifs with up
  · exact ⟨rfl, rfl, rfl, rfl, rfl⟩
  · exact ⟨rfl, rfl, rfl, rfl, by simpa using up⟩

theorem propagate_of_down (down : pair.replica.linkUp = false) (clock : Clock)
    (commands : List (List Arg)) : pair.propagate clock commands = pair :=
  if_neg (by rw [down]; exact Bool.false_ne_true)

/-- Commands that all arrive leave the link up. -/
theorem propagate_of_streams {commands : List (List Arg)} {copy : PlainMap}
    {effects : List (Effect Arg Arg Time)} (up : pair.replica.linkUp = true)
    (streams : Streams clock commands effects)
    (represents : Represents clock pair.replica.store copy) :
    ∃ after, pair.propagate clock commands =
        { pair with replica := { pair.replica with store := after } } ∧
      Represents clock after (applyAll clock.time effects copy) := by
  obtain ⟨after, done, represented⟩ := streams.acts represents
  refine ⟨after, ?_, represented⟩
  rw [Pair.propagate, if_pos up, done]
  rfl

theorem lone_commandEffects {plain : PlainMap} (time : Time) (command : List Arg) :
    ExpiringMap.Lone (commandEffects time plain command) :=
  (lone_loggedEffects time (fun key => (ExpiringMap.live time (plain key)).isSome) command).of_tracks
    (tracks_loggedEffects (fun _ => rfl) command)

/-- The effects that read a key do not depend on the map. -/
theorem agrees_commandEffects {found : Command} {command : List Arg} {now : Time}
    {finds copyFinds : Arg → Bool} (known : Command.ofCommand command = some found)
    (agrees : ∀ effect ∈ commandEffects now (fun _ => none) command,
      effect.Agrees now finds copyFinds) :
    ∀ effect ∈ commandEffects now plain command, effect.Agrees now finds copyFinds := by
  by_cases isSet : found = .set
  · subst isSet
    intro effect member
    rw [commandEffects, known] at member
    change effect ∈ setEffects now plain command.tail at member
    unfold setEffects at member
    split at member
    · cases member
    · split_ifs at member
      · cases member
      · obtain rfl := List.mem_singleton.mp member
        trivial
  · have same : commandEffects now plain command = commandEffects now (fun _ => none) command := by
      rw [commandEffects, commandEffects, known]
      exact effects_of_ne_set isSet now plain _ command.tail
    rwa [same]

variable {authed : Bool} {request : List Bytes}

/-- A command on the primary. -/
theorem Mirrored.command (mirrored : Mirrored offset since pair plain)
    (same : clock.offset = offset) (inOrder : since ≤ clock.time)
    (client : (PairStep.onPrimary (.command authed request)).Client)
    (agrees : (PairStep.onPrimary (.command authed request)).Agrees clock pair) :
    Mirrored offset clock.time (pair.step clock (.onPrimary (.command authed request)))
      (pair.plainStep clock plain (.onPrimary (.command authed request))) := by
  obtain ⟨⟨ascii, deliverable⟩, short⟩ := client
  have represents := mirrored.represents clock same inOrder
  have onwards {store : Store} {plain : PlainMap} (now : Represents clock store plain)
      (other : Clock) (otherSame : other.offset = offset) (after : clock.time ≤ other.time) :
      Represents other store plain :=
    now.later (otherSame.trans same.symm) after
  obtain ⟨copy, copyRepresents, trails⟩ := mirrored.rest inOrder
  obtain ⟨primaryOf, idle | logged⟩ := idle_or_logged authed represents ascii deliverable
  · have silent : ¬ pair.primary.Logs clock authed request := not_not.mpr idle.propagated
    have quiet : pair.step clock (.onPrimary (.command authed request)) =
        { pair with primary := (pair.primary.handle clock authed request).server } := by
      rw [Pair.step, idle.propagated, Pair.propagate]
      split_ifs <;> rfl
    rw [quiet, Pair.plainStep, if_neg silent]
    exact ⟨primaryOf.trans mirrored.primaryOf, mirrored.replicaOf, onwards idle.represents,
      mirrored.transferable, copy, copyRepresents, trails⟩
  · have logs : pair.primary.Logs clock authed request := by
      rw [Server.Logs, logged.propagated]
      exact List.cons_ne_nil _ _
    obtain ⟨found, known, writes⟩ := logged.known
    have finds : pair.primary.finds clock =
        fun key => (ExpiringMap.live clock.time (plain key)).isSome :=
      funext represents.isSome
    have streams : Streams clock [toReplicationCommand (received request)]
        (commandEffects clock.time plain (received request)) := by
      refine streams_toReplicationCommand logged.accepted deliverable ascii known writes ?_
        (short.sendable known)
      intro opts parsed isSet
      have free := logged.free opts (isSet ▸ known) parsed
      rwa [finds] at free
    have transferable : ∀ key, ∀ content ∈ applyAll clock.time
        (commandEffects clock.time plain (received request)) plain key,
          Transferable key content :=
      ExpiringMap.holds_applyAll mirrored.transferable (keeps_commandEffects deliverable short)
    let served : Pair :=
      { pair with primary := (pair.primary.handle clock authed request).server }
    have stepped : pair.step clock (.onPrimary (.command authed request)) =
        served.propagate clock [toReplicationCommand (received request)] := by
      rw [Pair.step, logged.propagated]
    rw [stepped, Pair.plainStep, if_pos logs]
    have primaryOfNone := primaryOf.trans mirrored.primaryOf
    cases up : pair.replica.linkUp with
    | false =>
        rw [propagate_of_down (show served.replica.linkUp = false from up)]
        refine ⟨primaryOfNone, mirrored.replicaOf, onwards logged.represents, transferable,
          copy, copyRepresents, ?_⟩
        intro stillUp
        cases up.symm.trans stillUp
    | true =>
        have copyNow := copyRepresents clock same (le_refl _)
        have copyFinds : pair.replica.finds clock =
            fun key => (ExpiringMap.live clock.time (copy key)).isSome :=
          funext copyNow.isSome
        obtain ⟨after, delivered, represented⟩ :=
          propagate_of_streams (show served.replica.linkUp = true from up) streams copyNow
        rw [delivered]
        refine ⟨primaryOfNone, mirrored.replicaOf, onwards logged.represents, transferable,
          _, onwards represented, fun _ key => ?_⟩
        have agreesHere : ∀ effect ∈ commandEffects clock.time plain (received request), _ :=
          agrees_commandEffects known (agrees up logs)
        rw [finds, copyFinds] at agreesHere
        exact ExpiringMap.trails_applyAll lags_refl (lone_commandEffects _ _) (trails up)
          agreesHere key

/-- A step of the replica itself. -/
theorem Mirrored.onReplica (mirrored : Mirrored offset since pair plain)
    (same : clock.offset = offset) (inOrder : since ≤ clock.time) {step : ServerStep}
    (client : step.Client) :
    Mirrored offset clock.time (pair.step clock (.onReplica step)) plain := by
  obtain ⟨copy, copyRepresents, trails⟩ := mirrored.rest inOrder
  have kept : Observes clock.monotonic pair.replica.store
        (pair.replica.step clock step).store ∧
      (pair.replica.step clock step).replicaOf = pair.replica.replicaOf ∧
      (pair.replica.step clock step).linkUp = pair.replica.linkUp := by
    cases step with
    | command authed request =>
        obtain ⟨observes, replicaOf⟩ :=
          @observes_replica clock pair.replica mirrored.replicaOf authed request client.1
        exact ⟨observes, replicaOf, Server.handle_linkUp clock pair.replica authed request⟩
    | sweep => exact ⟨observes_sweep _ _, rfl, rfl⟩
  obtain ⟨observes, replicaOf, linkUp⟩ := kept
  have represented := observes.represents (copyRepresents clock same (le_refl _))
  refine ⟨mirrored.primaryOf, replicaOf ▸ mirrored.replicaOf,
    fun other otherSame after => mirrored.represents other otherSame (le_trans inOrder after),
    mirrored.transferable, copy,
    fun other otherSame after => represented.later (otherSame.trans same.symm) after, ?_⟩
  intro up
  exact trails (linkUp ▸ up)

/-- The end of a connection. -/
theorem Mirrored.unlink (mirrored : Mirrored offset since pair plain)
    (inOrder : since ≤ clock.time) : Mirrored offset clock.time pair.unlink plain := by
  obtain ⟨copy, copyRepresents, -⟩ := mirrored.rest inOrder
  obtain ⟨store, primaryOf, replicaOf, copyStore, down⟩ := unlink_frame pair
  refine ⟨primaryOf.trans mirrored.primaryOf, replicaOf ▸ mirrored.replicaOf, ?_,
    mirrored.transferable, copy, ?_, ?_⟩
  · intro other same after
    rw [store]
    exact mirrored.represents other same (le_trans inOrder after)
  · intro other same after
    rw [copyStore]
    exact copyRepresents other same after
  · intro up
    cases down.symm.trans up

/-- A new connection, which transfers the contents. -/
theorem Mirrored.serveReplica (mirrored : Mirrored offset clock.time pair plain)
    (same : clock.offset = offset) :
    Mirrored offset clock.time (pair.serveReplica clock) plain := by
  have represents := mirrored.represents clock same (le_refl _)
  obtain ⟨other, otherRepresents, -⟩ := mirrored.copies
  obtain ⟨after, copy, delivered, represented, trails⟩ :=
    snapshot_trails represents mirrored.transferable (otherRepresents clock same (le_refl _))
  have swept := (observes_sweep clock.monotonic pair.primary.store).represents represents
  have served : pair.serveReplica clock =
      ⟨{ pair.primary with
          store := (buildSnapshotCommands clock pair.primary.store).2
          replicas := pair.primary.replicas + 1 },
        { pair.replica with linkUp := true, store := after }⟩ := by
    rw [Pair.serveReplica]
    dsimp only
    rw [Pair.propagate, if_pos rfl]
    dsimp only
    rw [delivered]
    rfl
  rw [served]
  exact ⟨mirrored.primaryOf, mirrored.replicaOf,
    fun other otherSame after => swept.later (otherSame.trans same.symm) after,
    mirrored.transferable, copy,
    fun other otherSame after => represented.later (otherSame.trans same.symm) after,
    fun _ => trails⟩

theorem Mirrored.sync (mirrored : Mirrored offset since pair plain)
    (same : clock.offset = offset) (inOrder : since ≤ clock.time) (authed : Bool) :
    Mirrored offset clock.time (pair.step clock (.sync authed)) plain := by
  have apart := mirrored.unlink inOrder
  have unknown : Command.ofCommand (received Pair.syncCommand) = none := by decide +kernel
  obtain ⟨primaryOf, idle | logged⟩ :=
    idle_or_logged authed (apart.represents clock same (le_refl _))
      (show AsciiNamed Pair.syncCommand by decide +kernel) (by decide +kernel)
  · have asked : Mirrored offset clock.time
        { pair.unlink with
          primary := (pair.unlink.primary.handle clock authed Pair.syncCommand).server } plain :=
      ⟨primaryOf.trans apart.primaryOf, apart.replicaOf,
        fun other otherSame after => idle.represents.later (otherSame.trans same.symm) after,
        apart.transferable, apart.copies⟩
    rw [Pair.step]
    split_ifs
    · exact asked.serveReplica same
    · exact asked
  · obtain ⟨found, known, -⟩ := logged.known
    rw [unknown] at known
    cases known

/-- Every step keeps the invariant. -/
theorem Mirrored.step (mirrored : Mirrored offset since pair plain)
    (same : clock.offset = offset) (inOrder : since ≤ clock.time) {step : PairStep}
    (client : step.Client) (agrees : step.Agrees clock pair) :
    Mirrored offset clock.time (pair.step clock step) (pair.plainStep clock plain step) := by
  cases step with
  | onPrimary step =>
      cases step with
      | command authed request => exact mirrored.command same inOrder client agrees
      | sweep =>
          have represents := mirrored.represents clock same inOrder
          have swept := (observes_sweep clock.monotonic pair.primary.store).represents represents
          exact ⟨mirrored.primaryOf, mirrored.replicaOf,
            fun other otherSame after => swept.later (otherSame.trans same.symm) after,
            mirrored.transferable, mirrored.rest inOrder⟩
  | onReplica step => exact mirrored.onReplica same inOrder client
  | sync authed => exact mirrored.sync same inOrder authed
  | disconnect => exact mirrored.unlink inOrder

/-- So does a whole run. -/
theorem Mirrored.run {steps : List (Clock × PairStep)} {moment : Time}
    (mirrored : Mirrored offset since pair plain)
    (paced : PairPaced offset since steps moment) (agrees : AgreesAll pair steps) :
    ∃ last, last ≤ moment ∧ Mirrored offset last (pair.run steps) (pair.plainRun plain steps) := by
  induction steps generalizing pair plain since with
  | nil => exact ⟨since, paced, mirrored⟩
  | cons entry rest ih =>
      obtain ⟨clock, step⟩ := entry
      obtain ⟨same, inOrder, client, pacedRest⟩ := paced
      exact ih (mirrored.step same inOrder client agrees.1) pacedRest agrees.2

/-- A replica that trails its primary shows what the primary shows. -/
theorem Mirrored.converged (mirrored : Mirrored offset since pair plain)
    (same : clock.offset = offset) (inOrder : since ≤ clock.time)
    (up : pair.replica.linkUp = true) : Converged clock pair plain := by
  have represents := mirrored.represents clock same inOrder
  obtain ⟨copy, copyRepresents, trails⟩ := mirrored.rest inOrder
  have copyNow := copyRepresents clock same (le_refl _)
  constructor
  · intro key value deadline present
    rw [represents.get? key] at present
    obtain ⟨⟨value, limit⟩, live, sameContent⟩ := Option.map_eq_some_iff.mp present
    obtain ⟨rfl, -⟩ := Prod.mk.inj sameContent
    obtain ⟨copyLimit, copyLive⟩ := (trails up key).live_of_le And.left live
    rw [copyNow.get? key, copyLive]
    exact ⟨_, rfl⟩
  · intro key copyPresent
    rw [represents.isSome key]
    rw [copyNow.isSome key] at copyPresent
    cases live : ExpiringMap.live clock.time (plain key) with
    | some content => exact Or.inl rfl
    | none =>
        right
        rcases trails up key with tracks | ⟨-, dead⟩
        · generalize copy key = copyCell at tracks copyPresent
          cases cell : plain key with
          | none =>
              rw [cell] at tracks
              cases tracks
              cases copyPresent
          | some content =>
              rw [cell] at tracks live
              cases tracks with
              | @some _ copyContent related =>
                  obtain ⟨value, limit⟩ := content
                  obtain ⟨copyValue, copyLimit⟩ := copyContent
                  obtain ⟨rfl, deadlines⟩ := related
                  cases deadlines with
                  | none =>
                      rw [ExpiringMap.live_some_none] at live
                      cases live
                  | @some limit copyLimit lags =>
                      rw [ExpiringMap.live_some_some] at live copyPresent
                      split_ifs at live with alive
                      split_ifs at copyPresent with copyAlive
                      · exact ⟨value, limit, rfl, le_of_not_gt alive,
                          copyAlive.le.trans lags.2⟩
                      · cases copyPresent
        · rw [dead] at copyPresent
          cases copyPresent

/-- In every run whose steps send nothing that the replica would take otherwise, a
linked replica shows what the primary shows. -/
theorem converged_of_agrees {start : Time} {steps : List (Clock × PairStep)}
    (fresh : FreshPair pair) (paced : PairPaced offset start steps clock.time)
    (same : clock.offset = offset) (agrees : AgreesAll pair steps)
    (up : (pair.run steps).replica.linkUp = true) :
    Converged clock (pair.run steps) (pair.plainRun (fun _ => none) steps) := by
  obtain ⟨last, before, mirrored⟩ := (fresh.mirrored offset start).run paced agrees
  exact mirrored.converged same before up

end Invariant

section Examples

/-- A primary and a replica with nothing in them. -/
def emptyPair : Pair :=
  ⟨Server.init 0 .noeviction none none,
    Server.init 0 .noeviction (some ("localhost".toList, DEFAULT_PORT)) none⟩

theorem freshPair_emptyPair : FreshPair emptyPair :=
  ⟨⟨.noeviction, rfl⟩, rfl, ⟨.noeviction, rfl⟩, rfl, rfl⟩

/-- A key with a lifetime that is transferred, and counted while it is live. -/
def countedWhileLive : List (Clock × PairStep) :=
  [(.epoch, .onPrimary (.command true (request ["SET", "n", "5", "PX", "1500"]))),
    (.afterEpoch 800, .sync true),
    (.afterEpoch 1200, .onPrimary (.command true (request ["INCR", "n"])))]

theorem converged_countedWhileLive :
    Converged (.afterEpoch 1600) (emptyPair.run countedWhileLive)
      (emptyPair.plainRun (fun _ => none) countedWhileLive) :=
  @converged_of_agrees (.afterEpoch 1600) 0 emptyPair 0 countedWhileLive freshPair_emptyPair
    (by decide +kernel) (by decide +kernel) (by decide +kernel) (by decide +kernel)

/-- The same key, counted when it has expired on the primary alone. -/
def countedTooLate : List (Clock × PairStep) :=
  [(.epoch, .onPrimary (.command true (request ["SET", "n", "5", "PX", "1500"]))),
    (.afterEpoch 800, .sync true),
    (.afterEpoch 1600, .onPrimary (.command true (request ["INCR", "n"])))]

/-- The primary starts the counter again, the replica goes on with the old one. -/
theorem not_converged_countedTooLate :
    FreshPair emptyPair ∧ PairPaced 0 0 countedTooLate (Clock.afterEpoch 1600).time ∧
      (emptyPair.run countedTooLate).replica.linkUp = true ∧
      ¬ Converged (.afterEpoch 1600) (emptyPair.run countedTooLate)
        (emptyPair.plainRun (fun _ => none) countedTooLate) := by
  refine ⟨freshPair_emptyPair, by decide +kernel, by decide +kernel, ?_⟩
  intro converged
  obtain ⟨deadline, present⟩ := converged.present (.bytes [110]) (.bytes [49]) none
    (by decide +kernel)
  have kept : ((emptyPair.run countedTooLate).replica.store.live
      (Clock.afterEpoch 1600).monotonic).get? (.bytes [110]) =
        some (.bytes [54], some (9 / 5)) := by
    decide +kernel
  rw [kept] at present
  cases present

end Examples

end MiniCache
