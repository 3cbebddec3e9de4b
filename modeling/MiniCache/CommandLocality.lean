import MiniCache.CommandAnswers
import MiniCache.ExpiringFrames
import MiniCache.Isolation
import MiniCache.ServerWriteGate

/-!
# The keys of a command

On a store without a memory limit a command reads and changes the keys among its arguments
and no others, unless it is `KEYS`, `DBSIZE` or `FLUSHDB`.  So clients with different keys do
not notice each other.
-/

namespace MiniCache

open ExpiringMap (Effect applyAll mapDeadline)

section Keys

/-- The keys of the pairs of an `MSET`. -/
def pairKeys : List Arg → List Arg
  | key :: _ :: rest => key :: pairKeys rest
  | _ => []

/-- The keys among the arguments of a command. -/
def Command.keysOf (args : List Arg) : Command → List Arg
  | .set | .get | .incr | .decr | .incrby | .decrby | .expire | .pexpire | .pexpireat | .ttl
  | .persist => args.take 1
  | .mset => pairKeys args
  | .mget | .del | .existsKey => args
  | .ping | .echo | .keys | .flushdb | .dbsize => []

/-- The keys that a whole command names. -/
def commandKeys (command : List Arg) : List Arg :=
  match Command.ofCommand command with
  | none => []
  | some found => found.keysOf command.tail

/-- The commands that are about the keys that they name. -/
def Command.Keyed (found : Command) : Prop := found ∉ [.keys, .flushdb, .dbsize]

instance (found : Command) : Decidable found.Keyed := inferInstanceAs (Decidable (_ ∉ _))

def Keyed (command : List Arg) : Prop := ∀ found ∈ Command.ofCommand command, found.Keyed

instance (command : List Arg) : Decidable (Keyed command) :=
  inferInstanceAs (Decidable (∀ found ∈ Command.ofCommand command, found.Keyed))

variable {time : Time} {plain other : PlainMap} {args : List Arg}

/-- The maps are live alike at some keys. -/
def AgreeAt (time : Time) (plain other : PlainMap) (keys : List Arg) : Prop :=
  ∀ key ∈ keys, ExpiringMap.live time (plain key) = ExpiringMap.live time (other key)

theorem AgreeAt.value {keys : List Arg} (agree : AgreeAt time plain other keys) :
    ∀ key ∈ keys, valueOf time plain key = valueOf time other key := fun key member => by
  rw [valueOf, agree key member, valueOf]

theorem AgreeAt.present {keys : List Arg} (agree : AgreeAt time plain other keys) :
    ∀ key ∈ keys, presentAt time plain key = presentAt time other key := fun key member => by
  rw [presentAt, agree key member, presentAt]

theorem setAnswer_congr (agree : AgreeAt time plain other (args.take 1)) :
    setAnswer time plain args = setAnswer time other args := by
  unfold setAnswer
  cases parsed : parseSet args with
  | error raised => rfl
  | ok opts =>
      obtain ⟨options, rfl⟩ := parseSet_args parsed
      have named : opts.key ∈ List.take 1 (opts.key :: opts.value :: options) := by simp
      dsimp only
      rw [agree.value _ named, agree.present _ named]

theorem incrementAnswer_congr {key : Arg} (agree : AgreeAt time plain other [key])
    (delta : Int) :
    incrementAnswer time plain key delta = incrementAnswer time other key delta := by
  rw [incrementAnswer, agree.value key (List.mem_singleton_self key), incrementAnswer]

/-- The answer of a keyed command depends on its keys only. -/
theorem answer_congr {found : Command} (keyed : found.Keyed)
    (agree : AgreeAt time plain other (found.keysOf args)) (listed otherListed : List Arg) :
    found.answer time plain listed args = found.answer time other otherListed args := by
  cases found with
  | set => exact setAnswer_congr agree
  | get | ttl | persist =>
      rcases args with _ | ⟨key, _ | ⟨_, _⟩⟩
      · rfl
      · have same := agree key (List.mem_singleton_self key)
        simp only [Command.answer, oneAnswer, valueOf, same]
      · rfl
  | mget =>
      have same : args.map (fun key => Value.ofOption (valueOf time plain key)) =
          args.map fun key => Value.ofOption (valueOf time other key) :=
        List.map_congr_left fun key member => congrArg _ (agree.value key member)
      simp only [Command.answer, someAnswer, same]
  | del =>
      have same : args.dedup.countP (presentAt time plain) =
          args.dedup.countP (presentAt time other) :=
        List.countP_congr fun key member => by
          rw [agree.present key (List.mem_dedup.mp member)]
      simp only [Command.answer, someAnswer, same]
  | existsKey =>
      have same : args.countP (presentAt time plain) = args.countP (presentAt time other) :=
        List.countP_congr fun key member => by rw [agree.present key member]
      simp only [Command.answer, someAnswer, same]
  | incr | decr =>
      rcases args with _ | ⟨key, _ | ⟨_, _⟩⟩
      · rfl
      · exact incrementAnswer_congr agree _
      · rfl
  | incrby | decrby =>
      rcases args with _ | ⟨key, _ | ⟨amount, _ | ⟨_, _⟩⟩⟩
      case cons.cons.nil =>
        have same : AgreeAt time plain other [key] := agree
        simp only [Command.answer, counterByAnswer, incrementAnswer_congr same]
      all_goals rfl
  | expire | pexpire =>
      rcases args with _ | ⟨key, _ | ⟨amount, _ | ⟨_, _⟩⟩⟩
      case cons.cons.nil =>
        have same : presentAt time plain key = presentAt time other key :=
          AgreeAt.present agree key (List.mem_singleton_self key)
        simp only [Command.answer, lifetimeAnswer, same]
      all_goals rfl
  | pexpireat =>
      rcases args with _ | ⟨key, _ | ⟨moment, _ | ⟨_, _⟩⟩⟩
      case cons.cons.nil =>
        have same : presentAt time plain key = presentAt time other key :=
          AgreeAt.present agree key (List.mem_singleton_self key)
        simp only [Command.answer, deadlineAnswer, same]
      all_goals rfl
  | mset | ping | echo => rfl
  | keys | flushdb | dbsize => exact absurd keyed (by decide)

/-- So do its effects. -/
theorem effects_congr {found : Command} (agree : AgreeAt time plain other (found.keysOf args)) :
    found.effects time plain args = found.effects time other args := by
  cases found with
  | set =>
      unfold Command.effects setEffects
      cases parsed : parseSet args with
      | error raised => rfl
      | ok opts =>
          obtain ⟨options, rfl⟩ := parseSet_args parsed
          have same := agree opts.key (by simp [Command.keysOf])
          dsimp only
          rw [same]
  | get | mset | mget | incr | decr | incrby | decrby | del | existsKey | expire | pexpire
  | pexpireat | ttl | persist | keys | flushdb | dbsize | ping | echo => rfl

theorem on_pairWrites (pairs : List Arg) :
    ∀ effect ∈ pairWrites pairs, effect.On (pairKeys pairs) := by
  induction pairs using pairWrites.induct with
  | case1 key value rest ih =>
      rw [pairWrites, pairKeys, List.forall_mem_cons]
      refine ⟨List.mem_cons_self .., fun effect member => ?_⟩
      cases effect with
      | act place action => exact List.mem_cons_of_mem _ (ih _ member)
      | flush => exact ih _ member
  | case2 pairs single =>
      rw [pairWrites]
      · exact List.forall_mem_nil _
      · exact single

/-- The effects of a keyed command are on its keys. -/
theorem on_effects {found : Command} (keyed : found.Keyed) (time : Time) (plain : PlainMap)
    (args : List Arg) :
    ∀ effect ∈ found.effects time plain args, effect.On (found.keysOf args) := by
  intro effect member
  cases found with
  | set =>
      simp only [Command.effects, setEffects] at member
      cases parsed : parseSet args with
      | error raised => simp [parsed] at member
      | ok opts =>
          rw [parsed] at member
          obtain ⟨options, rfl⟩ := parseSet_args parsed
          dsimp only at member
          split_ifs at member
          · cases member
          · obtain rfl := List.mem_singleton.mp member
            show opts.key ∈ List.take 1 _
            simp
  | mset =>
      simp only [Command.effects] at member
      split_ifs at member
      · cases member
      · exact on_pairWrites args effect member
  | incr | decr =>
      rcases args with _ | ⟨key, _ | ⟨_, _⟩⟩
      · cases member
      · obtain rfl := List.mem_singleton.mp member
        exact List.mem_singleton_self key
      · cases member
  | incrby | decrby =>
      rcases args with _ | ⟨key, _ | ⟨amount, _ | ⟨_, _⟩⟩⟩
      case cons.cons.nil =>
        simp only [Command.effects, counterByEffects] at member
        cases parsed : parseInt amount with
        | error raised => simp [parsed] at member
        | ok delta =>
            rw [parsed] at member
            obtain rfl := List.mem_singleton.mp member
            exact List.mem_singleton_self key
      all_goals cases member
  | expire | pexpire =>
      rcases args with _ | ⟨key, _ | ⟨amount, _ | ⟨_, _⟩⟩⟩
      case cons.cons.nil =>
        simp only [Command.effects, lifetimeEffects] at member
        cases parsed : parseInt amount with
        | error raised => simp [parsed] at member
        | ok number =>
            rw [parsed] at member
            obtain rfl := List.mem_singleton.mp member
            exact List.mem_singleton_self key
      all_goals cases member
  | pexpireat =>
      rcases args with _ | ⟨key, _ | ⟨moment, _ | ⟨_, _⟩⟩⟩
      case cons.cons.nil =>
        simp only [Command.effects, deadlineEffects] at member
        cases read : intOfText (toText moment) with
        | none => simp [read] at member
        | some unixMs =>
            rw [read] at member
            dsimp only at member
            split_ifs at member
            · cases member
            · obtain rfl := List.mem_singleton.mp member
              exact List.mem_singleton_self key
      all_goals cases member
  | persist =>
      rcases args with _ | ⟨key, _ | ⟨_, _⟩⟩
      · cases member
      · obtain rfl := List.mem_singleton.mp member
        exact List.mem_singleton_self key
      · cases member
  | del =>
      obtain ⟨key, named, rfl⟩ := List.mem_map.mp member
      exact named
  | get | mget | existsKey | ttl | ping | echo => cases member
  | keys | flushdb | dbsize => exact absurd keyed (by decide)

end Keys

section Stores

variable {clock : Clock} {store other : Store} {command : List Arg}

/-- Stores that are live alike at a key are so on the wall clock. -/
theorem live_onWall_congr (uncapped : Uncapped store) (otherUncapped : Uncapped other)
    {key : Arg}
    (same : (store.live clock.monotonic).get? key = (other.live clock.monotonic).get? key) :
    ExpiringMap.live clock.time (store.onWall clock key) =
      ExpiringMap.live clock.time (other.onWall clock key) := by
  rw [(uncapped.represents clock).get?, (otherUncapped.represents clock).get?] at same
  exact mapDeadline_injective clock same

/-- A store without a limit whose heap records its deadlines. -/
structure Store.Plain (store : Store) : Prop extends Uncapped store where
  scheduled : store.Scheduled

theorem Store.plain_init (policy : Policy) : (Store.init 0 policy).Plain :=
  ⟨uncapped_init policy, Store.scheduled_init 0 policy⟩

theorem Store.Plain.dispatched (ok : store.Plain) (clock : Clock) (command : List Arg) :
    (dispatch clock store command).2.Plain := by
  have reached := @reaches_dispatch clock (fun _ => True) store command fun _ _ => trivial
  exact ⟨ok.toUncapped.dispatched clock command, reached.keeps.scheduled ok.scheduled⟩

theorem Store.Plain.observes {now : Time} (ok : store.Plain)
    (observes : Observes now store other) : other.Plain :=
  ⟨ok.toUncapped.observes observes, observes.scheduled ok.scheduled⟩

/-- The stores are live alike at the keys of a command. -/
def LiveAlike (clock : Clock) (store other : Store) (keys : List Arg) : Prop :=
  ∀ key ∈ keys,
    (store.live clock.monotonic).get? key = (other.live clock.monotonic).get? key

theorem LiveAlike.agreeAt (ok : store.Plain) (otherOk : other.Plain) {keys : List Arg}
    (alike : LiveAlike clock store other keys) :
    AgreeAt clock.time (store.onWall clock) (other.onWall clock) keys :=
  fun key member => live_onWall_congr ok.toUncapped otherOk.toUncapped (alike key member)

/-- A keyed command is answered alike by stores that are alike at its keys. -/
theorem dispatch_congr (keyed : Keyed command) (ok : store.Plain) (otherOk : other.Plain)
    (alike : LiveAlike clock store other (commandKeys command)) :
    (dispatch clock store command).1 = (dispatch clock other command).1 := by
  have agree := LiveAlike.agreeAt ok otherOk alike
  rw [answer_dispatch (ok.toUncapped.represents clock) ok.scheduled,
    answer_dispatch (otherOk.toUncapped.represents clock) otherOk.scheduled]
  cases command with
  | nil => rfl
  | cons head args =>
      simp only [commandAnswer]
      cases found : Command.ofName (upper (toText head)) with
      | none => rfl
      | some command =>
          have known : Command.ofCommand (head :: args) = some command := found
          rw [commandKeys, known] at agree
          exact congrArg (caught _) (answer_congr (keyed command known) agree _ _)

/-- It leaves them alike at every key at which they were. -/
theorem live_dispatch_congr (ok : store.Plain) (otherOk : other.Plain)
    (alike : LiveAlike clock store other (commandKeys command)) {key : Arg}
    (same : (store.live clock.monotonic).get? key = (other.live clock.monotonic).get? key) :
    ((dispatch clock store command).2.live clock.monotonic).get? key =
      ((dispatch clock other command).2.live clock.monotonic).get? key := by
  have agree := LiveAlike.agreeAt ok otherOk alike
  have effects : commandEffects clock.time (store.onWall clock) command =
      commandEffects clock.time (other.onWall clock) command := by
    unfold commandEffects
    cases known : Command.ofCommand command with
    | none => rfl
    | some found =>
        rw [commandKeys, known] at agree
        exact effects_congr agree
  rw [get?_dispatch ok.toUncapped, get?_dispatch otherOk.toUncapped, effects]
  exact congrArg _ (ExpiringMap.live_applyAll_congr _
    (live_onWall_congr ok.toUncapped otherOk.toUncapped same))

/-- It leaves the keys alone that it does not name. -/
theorem live_dispatch_of_notMem (keyed : Keyed command) (ok : store.Plain) {key : Arg}
    (apart : key ∉ commandKeys command) :
    ((dispatch clock store command).2.live clock.monotonic).get? key =
      (store.live clock.monotonic).get? key := by
  rw [get?_dispatch ok.toUncapped, (ok.toUncapped.represents clock).get?]
  unfold commandEffects
  cases known : Command.ofCommand command with
  | none => rfl
  | some found =>
      rw [commandKeys, known] at apart
      dsimp only
      rw [ExpiringMap.applyAll_of_on (on_effects (keyed found known) _ _ _) apart]

end Stores

section Clients

/-- A store serves a command or is swept. -/
def Store.take (clock : Clock) (turn : StoreTurn) (store : Store) :
    Option (Except Raised Value) × Store :=
  match turn with
  | .serve command =>
      let served := dispatch clock store command
      (some served.1, served.2)
  | .sweep => (none, (store.sweepExpired clock.monotonic).2)

/-- The keys that a turn names. -/
def StoreTurn.keys : StoreTurn → List Arg
  | .serve command => commandKeys command
  | .sweep => []

def StoreTurn.Keyed : StoreTurn → Prop
  | .serve command => MiniCache.Keyed command
  | .sweep => True

instance (turn : StoreTurn) : Decidable turn.Keyed :=
  match turn with
  | .serve command => inferInstanceAs (Decidable (MiniCache.Keyed command))
  | .sweep => inferInstanceAs (Decidable True)

/-- The turns of a store are confined to the keys that they name. -/
theorem confined_take : Isolation.Confined Store.take
    (fun clock store key => (store.live clock.monotonic).get? key)
    (fun turn key => key ∈ turn.keys) Store.Plain StoreTurn.Keyed
    fun clock later => clock.monotonic ≤ later.monotonic where
  stays := by
    intro clock turn store keyed ok
    cases turn with
    | serve command => exact ok.dispatched clock command
    | sweep => exact ok.observes (observes_sweep clock.monotonic store)
  reply := by
    intro clock turn store other keyed ok otherOk alike
    cases turn with
    | serve command => exact congrArg some (dispatch_congr keyed ok otherOk alike)
    | sweep => rfl
  effect := by
    intro clock turn store other keyed ok otherOk alike key named
    cases turn with
    | serve command => exact live_dispatch_congr ok otherOk alike (alike key named)
    | sweep => cases named
  frame := by
    intro clock turn store keyed ok key apart
    cases turn with
    | serve command => exact live_dispatch_of_notMem keyed ok apart
    | sweep => exact (observes_sweep clock.monotonic store).view key
  later := by
    intro clock later store other key inOrder same
    rw [← Store.live_plain, ← Store.live_plain, ← ExpiringMap.live_live inOrder, Store.live_plain,
      same, ← Store.live_plain, ExpiringMap.live_live inOrder]

/-- In a run that several clients share with the background sweep, in any order and with any
waiting in between, a client whose keys the others do not name is answered as if it were
alone. -/
theorem clients_isolated {ι : Type} [DecidableEq ι] (policy : Policy) (who : ι)
    (run : List (ι × Clock × StoreTurn)) (forward : Forward (run.map Prod.snd))
    (keyed : ∀ event ∈ run, event.2.2.Keyed)
    (apart : ∀ event ∈ run, ∀ other ∈ run, event.1 = who → other.1 ≠ who →
      ∀ key ∈ event.2.2.keys, key ∉ other.2.2.keys) :
    Isolation.repliesTo Store.take who (Store.init 0 policy) run =
      Isolation.replies Store.take (Store.init 0 policy) (Isolation.share who run) := by
  let mine (key : Arg) : Prop := ∃ event ∈ run, event.1 = who ∧ key ∈ event.2.2.keys
  have inOrder : (run.map fun event => event.2.1).Pairwise
      fun clock later => clock.monotonic ≤ later.monotonic := by
    unfold Forward at forward
    rw [List.map_map] at forward
    rw [List.pairwise_map] at forward ⊢
    exact forward
  have separate : ∀ event ∈ run,
      Isolation.Separate (fun turn key => key ∈ StoreTurn.keys turn) who mine event := by
    intro event member key named
    constructor
    · exact fun same => ⟨event, member, same, named⟩
    · rintro ⟨own, isOwn, same, also⟩
      by_contra different
      exact apart own isOwn event member same different key also named
  exact confined_take.isolated inOrder keyed separate (Store.plain_init policy)
    (Store.plain_init policy) fun _ _ _ _ => rfl

/-- Two clients take turns, each with a key of its own, and a third party sweeps. -/
def sharedRun : List (Nat × Clock × StoreTurn) :=
  [(0, .afterEpoch 0, .serve [.ofString "SET", .bytes [107], .bytes [49], .ofString "PX",
      .ofString "500"]),
    (1, .afterEpoch 100, .serve [.ofString "INCR", .bytes [108]]),
    (0, .afterEpoch 200, .serve [.ofString "INCRBY", .bytes [107], .ofString "4"]),
    (2, .afterEpoch 600, .sweep),
    (1, .afterEpoch 600, .serve [.ofString "DEL", .bytes [108], .bytes [108]]),
    (0, .afterEpoch 700, .serve [.ofString "EXISTS", .bytes [107]])]

theorem clients_isolated_sharedRun :
    Isolation.repliesTo Store.take 0 (Store.init 0 .noeviction) sharedRun =
      Isolation.replies Store.take (Store.init 0 .noeviction) (Isolation.share 0 sharedRun) :=
  clients_isolated .noeviction 0 sharedRun (by decide +kernel) (by decide +kernel)
    (by decide +kernel)

end Clients

end MiniCache
