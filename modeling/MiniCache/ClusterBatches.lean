import MiniCache.ClusterClient
import MiniCache.CommandForms

/-!
# Scattered batches

The client groups the commands of a pipeline by shard, sends each group as one batch and
writes the replies back by position.  Whatever order the shards take their turns in, this
is sending the commands one at a time; the same holds of `mget` and `mset`.
-/

namespace MiniCache

open ScatterGather (collect share answered each serial steps fill turns)

section Exchange

variable {γ : Type} {clock : Clock} {groups : OrderedDict Text γ} {batchOf : γ → List (List Arg)}
  {schedule : List Text} {shards after : Shards} {answers : Text → List Value}

/-- What each shard does with its batch is what the exchange does. -/
theorem exchange_eq
    (served : ∀ node group, groups.get? node = some group →
      ∃ link : Link,
        steps (Link.turn clock) (schedule.countP (· = node))
            ((shards node).write ((batchOf group).flatMap encodeCommand)) = some link ∧
          link.receive (batchOf group).length = some (answers node, after node))
    (others : ∀ node, groups.get? node = none →
      schedule.countP (· = node) = 0 ∧ after node = shards node) :
    exchange clock groups batchOf schedule shards =
      some (groups.entries.map fun entry => answers entry.1, after) := by
  have walks : ∀ node, ∃ link : Link,
      steps (Link.turn clock) (schedule.countP (· = node))
          (scatter groups batchOf shards node) = some link ∧
        (groups.get? node = none → after node = link) ∧
          ∀ group, groups.get? node = some group →
            link.receive (batchOf group).length = some (answers node, after node) := by
    intro node
    cases found : groups.get? node with
    | none =>
        obtain ⟨idle, same⟩ := others node found
        refine ⟨shards node, ?_, fun _ => same, fun group impossible => by cases impossible⟩
        rw [idle, steps, scatter, found]
    | some group =>
        obtain ⟨link, walked, received⟩ := served node group found
        refine ⟨link, ?_, (fun impossible => by cases impossible), ?_⟩
        · rw [scatter, found]
          exact walked
        · rintro other ⟨⟩
          exact received
  choose links walked received using walks
  rw [exchange, ScatterGather.turns_eq walked, Option.bind_some]
  refine ScatterGather.each_distinct groups.nodupKeys ?_ ?_
  · rintro ⟨node, group⟩ member
    exact (received node).2 group (OrderedDict.get?_eq_some_iff.mpr member)
  · intro node absent
    exact (received node).1 (OrderedDict.get?_eq_none_iff.mpr absent)

end Exchange

namespace ClusterClient

variable {md5 : Bytes → Nat} {ring : HashRing} {clock : Clock} {shards after : Shards}
  {schedule : List Text}

/-- A schedule in which the shards take as many turns as some owners ask of them. -/
def Schedules (schedule : List Text) (owners : List (Option Text)) : Prop :=
  (schedule.map some).Perm owners

/-- The owner of every request takes one turn for it. -/
theorem Schedules.countP {κ : Type} {owner : κ → Option Text} {requests : List κ}
    (schedules : Schedules schedule (requests.map owner)) (node : Text) :
    schedule.countP (· = node) = (share owner node requests).length := by
  have counts := schedules.countP_eq (· = some node)
  rw [List.countP_map, List.countP_map] at counts
  rw [share, ← List.countP_eq_length_filter]
  refine Eq.trans (List.countP_congr fun first _ => ?_) counts
  simp

section Pipeline

variable {commands : List (List Arg)} {replies : List Value}

/-- Each shard's answers stand at the places of its commands. -/
theorem zip_gathered (entries : List (Text × List Nat))
    (answers : Text × List Nat → List Value) :
    (entries.zip (entries.map answers)).flatMap (fun batch => batch.1.2.zip batch.2) =
      entries.flatMap fun entry => entry.2.zip (answers entry) := by
  rw [← List.map_prod_left_eq_zip, List.flatMap_map]

/-- A pipeline returns the replies that its commands get one at a time, and leaves every
shard as they do. -/
theorem executeMany_eq (idle : ∀ node, (shards node).inbox = [])
    (deliverable : ∀ parts ∈ commands, Deliverable (parts.map Arg.wire))
    (done : sendEach md5 ring clock commands shards = some (replies, after))
    (schedules : Schedules schedule (commands.map (commandNode md5 ring))) :
    executeMany md5 ring clock commands schedule shards = some (replies, after) := by
  have lengths := ScatterGather.length_each done
  obtain ⟨groups, collected⟩ :=
    @ScatterGather.exists_collect _ _ _ _ (fun item : List Arg × Nat =>
      commandNode md5 ring item.1) (fun item => [item.2]) commands.zipIdx
      fun item member => ScatterGather.owned_of_each done (List.fst_mem_of_mem_zipIdx member)
  have exchanged := @exchange_eq _ clock groups (List.map (commands.getD · [])) schedule shards
    after (fun node =>
      (answered (commandNode md5 ring) node commands replies).map Prod.snd) ?_ ?_
  · rw [executeMany, collected, Option.bind_some, exchanged, Option.map_some]
    dsimp only
    rw [zip_gathered, ScatterGather.fill_gathered lengths collected (by simp)]
  · intro node group found
    have member := OrderedDict.get?_eq_some_iff.mp found
    have batch := ScatterGather.map_getD_group [] collected member
    have served := ScatterGather.each_share done node
    rw [schedules.countP]
    have within : ∀ parts ∈ share (commandNode md5 ring) node commands,
        Deliverable (parts.map Arg.wire) := fun parts isShare =>
      deliverable parts (List.mem_of_mem_filter isShare)
    rw [batch]
    exact Link.receive_batch within (idle node) served
  · intro node found
    have served := ScatterGather.each_share done node
    have nothing := ScatterGather.share_of_no_group collected found
    rw [schedules.countP, nothing]
    rw [nothing] at served
    exact ⟨rfl, (congrArg Prod.snd (Option.some.inj served)).symm⟩

end Pipeline

end ClusterClient

end MiniCache
