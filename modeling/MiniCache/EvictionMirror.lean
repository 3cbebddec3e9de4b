import MiniCache.FailedAppends
import MiniCache.ServerWriteGate

/-!
# Evictions on a copy

The server sends the deletions of all evicted keys after the form of the command that
evicted them.  A key that an `MSET` evicts and stores again with a later pair is deleted on
a copy, although the primary holds it; there is no other way for the two to differ.
-/

namespace MiniCache

open ExpiringMap (Action)
open LruCache (Lagging Settled change run)
open Store (weigh)

section Capped

variable {now : Time} {cap : Option Nat} {dict : OrderedDict Arg Content} {call : Call}
  {calls : List Call} {key : Arg}

/-- A store with a cap and no evictions to tell, after calls. -/
def capped (cap : Option Nat) (now : Time) (dict : OrderedDict Arg Content)
    (calls : List Call) : LruCache Arg Content :=
  run cap weigh ⟨dict, []⟩ (calls.map (Call.update now))

theorem capped_append (first second : List Call) :
    capped cap now dict (first ++ second) =
      ⟨(capped cap now (capped cap now dict first).dict second).dict,
        (capped cap now dict first).lost ++
          (capped cap now (capped cap now dict first).dict second).lost⟩ := by
  rw [capped, List.map_append, LruCache.run_append]
  exact LruCache.run_lost _ _

theorem lives_capped (lives : Lives now dict) (calls : List Call) :
    Lives now (capped cap now dict calls).dict :=
  lives.run

/-- What a single call evicts is gone after it. -/
theorem gone_of_lost_single (lost : key ∈ (capped cap now dict [call]).lost) :
    (capped cap now dict [call]).dict.get? key = none := by
  cases cap with
  | none => cases lost
  | some limit =>
      change key ∈ [] ++ (call.update now dict).victims limit weigh at lost
      change ((call.update now dict).trim limit weigh).get? key = none
      rw [OrderedDict.get?_trim, if_pos (by simpa using lost)]

/-- A single call that evicts nothing of a key leaves it as without a cap. -/
theorem get?_single_of_kept (kept : key ∉ (capped cap now dict [call]).lost) :
    (capped cap now dict [call]).dict.get? key = (call.update now dict).get? key := by
  cases cap with
  | none => rfl
  | some limit =>
      change key ∉ [] ++ (call.update now dict).victims limit weigh at kept
      change ((call.update now dict).trim limit weigh).get? key = _
      rw [OrderedDict.get?_trim, if_neg (by simpa using kept)]

/-- A call that fills stores a key or leaves it alone. -/
theorem Call.Fills.stores_or_leaves (fills : call.Fills) (lives : Lives now dict) (key : Arg) :
    (∃ value lifetime, call = .set key value lifetime) ∨
      (call.update now dict).get? key = dict.get? key := by
  rw [get?_update lives]
  cases call with
  | set other value lifetime =>
      by_cases same : key = other
      · exact Or.inl ⟨value, lifetime, by rw [same]⟩
      · right
        simp only [Call.apply, Call.effect]
        rw [ExpiringMap.Effect.apply_act_of_ne _ _ _ (Ne.symm same), lives]
  | get | existsKey => exact Or.inr (lives key)
  | incr | delete | expire | persist | flush | ttl | keys | snapshot | len | sweepExpired =>
      exact fills.elim

/-- Calls after which the rest still fits evict nothing. -/
theorem lost_of_settling
    (settles : ∀ call ∈ calls, ∀ dict : OrderedDict Arg Content, Settled cap weigh dict →
      Settled cap weigh (call.update now dict))
    (settled : Settled cap weigh dict) : (capped cap now dict calls).lost = [] := by
  induction calls generalizing dict with
  | nil => rfl
  | cons call calls ih =>
      obtain ⟨first, later⟩ := List.forall_mem_cons.mp settles
      have fits := first dict settled
      have single : capped cap now dict [call] = ⟨call.update now dict, []⟩ :=
        LruCache.settle_of_settled fits
      rw [← List.singleton_append, capped_append, single]
      exact ih later fits

theorem settles_of_looks (key : Arg) (settled : Settled cap weigh dict) :
    Settled cap weigh (dict.moveToEnd key) := by
  intro limit isCap
  have perm := OrderedDict.moveToEnd_perm dict key
  rcases settled limit isCap with light | few
  · exact Or.inl ((perm.map weigh).sum_eq.trans_le light)
  · exact Or.inr (perm.length_eq.trans_le few)

theorem settles_of_deletes (key : Arg) (settled : Settled cap weigh dict) :
    Settled cap weigh (dict.pop key) :=
  settled.sublist List.filter_sublist

/-- After calls that evict nothing, what the last call evicts is gone. -/
theorem gone_of_last {first last : List Call}
    (quiet : (capped cap now dict first).lost = []) (few : last.length ≤ 1) :
    ∀ key ∈ (capped cap now dict (first ++ last)).lost,
      (capped cap now dict (first ++ last)).dict.get? key = none := by
  rw [capped_append, quiet, List.nil_append]
  match last, few with
  | [], _ => exact List.forall_mem_nil _
  | [call], _ => exact fun key lost => gone_of_lost_single lost

/-- A key that is there stays until it is evicted. -/
theorem kept_of_fills (fill : ∀ call ∈ calls, call.Fills) (lives : Lives now dict)
    (present : dict.get? key ≠ none) (kept : key ∉ (capped cap now dict calls).lost) :
    (capped cap now dict calls).dict.get? key ≠ none := by
  induction calls generalizing dict with
  | nil => exact present
  | cons call calls ih =>
      obtain ⟨fills, fillRest⟩ := List.forall_mem_cons.mp fill
      rw [← List.singleton_append, capped_append] at kept ⊢
      rw [List.mem_append, not_or] at kept
      refine ih fillRest (lives_capped lives [call]) ?_ kept.2
      rw [get?_single_of_kept kept.1]
      exact fills.keeps lives present

/-- A key that the calls evict is there after them exactly when one of them stores it after
its eviction and it is not evicted after that. -/
theorem back_iff (fill : ∀ call ∈ calls, call.Fills) (lives : Lives now dict) (key : Arg) :
    (key ∈ (capped cap now dict calls).lost ∧
        (capped cap now dict calls).dict.get? key ≠ none) ↔
      ∃ before value lifetime later, calls = before ++ .set key value lifetime :: later ∧
        key ∈ (capped cap now dict before).lost ∧
        key ∉ (capped cap now (capped cap now dict
          (before ++ [.set key value lifetime])).dict later).lost := by
  constructor
  · induction calls using List.reverseRecOn with
    | nil =>
        rintro ⟨lost, -⟩
        cases lost
    | append_singleton calls call ih =>
        obtain ⟨fillFirst, fillLast⟩ := List.forall_mem_append.mp fill
        have fills := List.forall_mem_singleton.mp fillLast
        rintro ⟨lost, present⟩
        rw [capped_append] at lost present
        have kept : key ∉ (capped cap now (capped cap now dict calls).dict [call]).lost :=
          fun gone => present (gone_of_lost_single gone)
        have earlier := (List.mem_append.mp lost).resolve_right kept
        rcases fills.stores_or_leaves (lives_capped lives calls) key with
          ⟨value, lifetime, rfl⟩ | leaves
        · exact ⟨calls, value, lifetime, [], rfl, earlier, List.not_mem_nil⟩
        · have before : (capped cap now dict calls).dict.get? key ≠ none := by
            rwa [← leaves, ← get?_single_of_kept kept]
          obtain ⟨first, value, lifetime, later, rfl, evicted, stays⟩ :=
            ih fillFirst ⟨earlier, before⟩
          refine ⟨first, value, lifetime, later ++ [call], by simp, evicted, ?_⟩
          have split : first ++ .set key value lifetime :: later =
              (first ++ [.set key value lifetime]) ++ later := by simp
          rw [split, capped_append] at kept
          rw [capped_append, List.mem_append, not_or]
          exact ⟨stays, kept⟩
  · rintro ⟨before, value, lifetime, later, rfl, evicted, stays⟩
    obtain ⟨-, fillRest⟩ := List.forall_mem_append.mp fill
    obtain ⟨fills, fillLater⟩ := List.forall_mem_cons.mp fillRest
    have split : before ++ .set key value lifetime :: later =
        (before ++ [.set key value lifetime]) ++ later := by simp
    rw [split, capped_append]
    refine ⟨?_, kept_of_fills fillLater (lives_capped lives _) ?_ stays⟩
    · rw [capped_append]
      exact List.mem_append_left _ (List.mem_append_left _ evicted)
    · rw [capped_append]
      have stored := @get?_change_set now (capped cap now dict before).dict cap []
        (lives_capped lives before) key value lifetime fills
      change (change cap weigh ⟨(capped cap now dict before).dict, []⟩
        (Call.update now (.set key value lifetime))).dict.get? key ≠ none
      rw [stored]
      exact Option.some_ne_none _

end Capped

section Pairs

variable {before rest args : List Arg} {key value : Arg} {calls later : List Call}
  {lifetime : Option Time}

theorem pairCalls_append (even : before.length % 2 = 0) (rest : List Arg) :
    pairCalls (before ++ rest) = pairCalls before ++ pairCalls rest := by
  induction before using pairCalls.induct with
  | case1 key value others ih =>
      rw [List.length_cons, List.length_cons] at even
      rw [List.cons_append, List.cons_append, pairCalls, pairCalls, ih (by omega)]
      rfl
  | case2 before single =>
      rcases before with _ | ⟨key, _ | ⟨value, others⟩⟩
      · rfl
      · cases even
      · exact (single key value others rfl).elim

/-- A call of an `MSET` comes from one of its pairs. -/
theorem pairCalls_split (split : pairCalls args = calls ++ .set key value lifetime :: later) :
    ∃ before rest, args = before ++ key :: value :: rest ∧ before.length % 2 = 0 ∧
      pairCalls before = calls ∧ pairCalls rest = later ∧ lifetime = none := by
  induction args using pairCalls.induct generalizing calls with
  | case1 first second others ih =>
      rw [pairCalls] at split
      cases calls with
      | nil =>
          obtain ⟨same, rfl⟩ := List.cons.inj split
          obtain ⟨rfl, rfl, rfl⟩ := Call.set.inj same
          exact ⟨[], others, rfl, rfl, rfl, rfl, rfl⟩
      | cons call calls =>
          rw [List.cons_append] at split
          obtain ⟨rfl, splitRest⟩ := List.cons.inj split
          obtain ⟨before, rest, rfl, even, earlier, behind, undated⟩ := ih splitRest
          refine ⟨first :: second :: before, rest, rfl, ?_, by rw [pairCalls, earlier], behind,
            undated⟩
          rw [List.length_cons, List.length_cons]
          omega
  | case2 args single =>
      have none : pairCalls args = [] := by
        rw [pairCalls]
        exact single
      rw [none] at split
      exact absurd split (by simp)

end Pairs

section Mirroring

/-- An `MSET` evicts the key with some of its pairs, stores it again with a later pair, and
does not evict it after that. -/
def Rewrites (clock : Clock) (store : Store) (command : List Arg) (key : Arg) : Prop :=
  let cap := capOf store.maxmemory store.policy
  let after (pairs : List Arg) : LruCache Arg Content :=
    capped cap clock.monotonic (store.live clock.monotonic) (pairCalls pairs)
  Command.ofCommand command = some .mset ∧
    ∃ before value rest, command.tail = before ++ key :: value :: rest ∧
      before.length % 2 = 0 ∧ key ∈ (after before).lost ∧
      key ∉ (capped cap clock.monotonic (after (before ++ [key, value])).dict
        (pairCalls rest)).lost

variable {clock : Clock} {store : Store} {command : List Arg} {found : Command}

theorem pairCalls_snoc {before : List Arg} (even : before.length % 2 = 0) (key value : Arg) :
    pairCalls (before ++ [key, value]) = pairCalls before ++ [.set key value none] :=
  pairCalls_append even _

/-- What a write evicts is gone after it, unless the write is an `MSET` that stores it
again. -/
theorem gone_iff_not_rewrites (sound : store.Sound store.maxmemory store.policy)
    (known : Command.ofCommand command = some found) (writes : found.Writes)
    (accepted : Accepted (dispatch clock store command).1) :
    (∀ key ∈ (store.cacheAfter clock command).lost,
        (store.cacheAfter clock command).dict.get? key = none) ↔
      ∀ key, ¬Rewrites clock store command key := by
  let cap := capOf store.maxmemory store.policy
  let live := store.live clock.monotonic
  have settled : Settled cap weigh live := sound.settled clock.monotonic
  have lives : Lives clock.monotonic live := store.lives clock.monotonic
  have other (notMset : found ≠ .mset)
      (gone : ∀ key ∈ (store.cacheAfter clock command).lost,
        (store.cacheAfter clock command).dict.get? key = none) :
      (∀ key ∈ (store.cacheAfter clock command).lost,
        (store.cacheAfter clock command).dict.get? key = none) ↔
          ∀ key, ¬Rewrites clock store command key := by
    refine iff_of_true gone ?_
    rintro key ⟨isMset, -⟩
    exact notMset (Option.some.inj (known.symm.trans isMset))
  have after : store.cacheAfter clock command =
      capped cap clock.monotonic live (found.calls clock live command.tail) := by
    rw [Store.cacheAfter, commandCalls, known]
    rfl
  rw [after] at other ⊢
  by_cases isMset : found = .mset
  · subst isMset
    have even : ¬(command.tail.length < 2 ∨ command.tail.length % 2 = 1) := by
      intro malformed
      obtain ⟨again, reply, knownAgain, done⟩ := accepted_known accepted
      cases known.symm.trans knownAgain
      simp only [Command.handler, cmdMset, if_pos malformed] at done
      cases done
    rw [Command.calls, if_neg even]
    have fill := fills_pairCalls command.tail
    constructor
    · rintro gone key ⟨-, before, value, rest, tail, evenBefore, evicted, stays⟩
      obtain ⟨lost, present⟩ := (back_iff fill lives key).mpr ⟨pairCalls before, value, none,
        pairCalls rest, by rw [tail, pairCalls_append evenBefore]; rfl, evicted,
        by rwa [← pairCalls_snoc evenBefore]⟩
      exact present (gone key lost)
    · intro never key lost
      by_contra present
      obtain ⟨calls, value, lifetime, later, split, evicted, stays⟩ :=
        (back_iff fill lives key).mp ⟨lost, present⟩
      obtain ⟨before, rest, tail, evenBefore, rfl, rfl, rfl⟩ := pairCalls_split split
      refine never key ⟨known, before, value, rest, tail, evenBefore, evicted, ?_⟩
      simp only [pairCalls_snoc evenBefore]
      exact stays
  refine other isMset ?_
  by_cases isSet : found = .set
  · subst isSet
    simp only [Command.calls]
    cases parseSet command.tail with
    | error raised => exact List.forall_mem_nil _
    | ok opts =>
        refine gone_of_last (lost_of_settling ?_ settled) (by split_ifs <;> simp)
        intro call member dict settled
        unfold SetOptions.lookups at member
        split_ifs at member <;> simp only [List.mem_cons, List.not_mem_nil, or_false] at member
        · rcases member with rfl | rfl <;> exact settles_of_looks opts.key settled
        · obtain rfl := member
          exact settles_of_looks opts.key settled
  by_cases isDel : found = .del
  · subst isDel
    have quiet : (capped cap clock.monotonic live
        (Command.del.calls clock live command.tail)).lost = [] := by
      refine lost_of_settling ?_ settled
      intro call member dict settled
      obtain ⟨key, -, rfl⟩ := List.mem_map.mp member
      exact settles_of_deletes key settled
    rw [quiet]
    exact List.forall_mem_nil _
  · exact @gone_of_last _ _ _ [] _ rfl
      (length_calls_le_one writes isSet isMset isDel clock live command.tail)

end Mirroring

section Copying

variable {clock : Clock} {server : Server} {copy : Store} {command : List Bytes}

/-- A copy without a limit that holds what the primary holds, and then takes what a write
propagates, holds what the primary holds after the write if and only if the write leaves no
key that waited to be told as evicted, and rewrites none of the keys that it evicts. -/
theorem mirrored_iff (authed : Bool) (reachable : Reachable server.store)
    (uncapped : Uncapped copy)
    (equal : ∀ key,
      (copy.live clock.monotonic).get? key = (server.store.live clock.monotonic).get? key)
    (deliverable : Deliverable command)
    (accepted : Accepted (dispatch clock server.store (received command)).1)
    (isWrite : isWriteCommand (serverName command) = true)
    (sendable : ¬Unsendable (received command)) :
    let turn := server.execute clock authed (serverName command) (received command)
    (∀ key, ((deliverAll clock turn.propagated copy).2.live clock.monotonic).get? key =
        (turn.server.store.live clock.monotonic).get? key) ↔
      (∀ key ∈ server.store.evicted,
          (server.store.cacheAfter clock (received command)).dict.get? key = none) ∧
        ∀ key, ¬Rewrites clock server.store (received command) key := by
  intro turn
  have ascii := asciiNamed_of_isWriteCommand isWrite
  obtain ⟨found, reply, known, -⟩ := accepted_known accepted
  have writes : found.Writes := by
    rw [isWriteCommand_serverName ascii known] at isWrite
    exact of_decide_eq_true isWrite
  obtain ⟨records, recorded⟩ := toAofCommands_of_accepted accepted clock.time
  obtain ⟨store, -, -, propagated⟩ :=
    Server.execute_of_accepted clock server authed accepted isWrite recorded
  obtain ⟨live, evicted⟩ := dispatch_cache reachable.sound clock (received command)
  have storable : ∀ key ∈ server.store.evicted ++
      (server.store.cacheAfter clock (received command)).lost, Storable key := by
    rw [← evicted]
    exact storable_evicted reachable.sound reachable.storing deliverable reachable.tellable
  have represents := uncapped.represents clock
  have left : turn.server.store.live clock.monotonic =
      (server.store.cacheAfter clock (received command)).dict := by
    rw [show turn.server.store = _ from store, ← live]
    rfl
  have sent : turn.propagated = (if held clock server.store (received command) then []
      else [toReplicationCommand (received command)]) ++
        (server.store.evicted ++ (server.store.cacheAfter clock (received command)).lost).map
          Server.evictionCommand := by
    rw [show turn.propagated = _ from propagated, Server.written, evicted,
      logs_eq_not_held accepted ascii]
    cases held clock server.store (received command) <;> rfl
  -- What the copy holds is what the write left, the evicted keys included, less these keys.
  have agrees {space : Arg → Option Content}
      (lags : Lagging (server.store.cacheAfter clock (received command)) space)
      (delivered : ∀ key, ((deliverAll clock turn.propagated copy).2.live clock.monotonic).get? key =
        if key ∈ server.store.evicted ++
            (server.store.cacheAfter clock (received command)).lost then none else space key) :
      (∀ key, ((deliverAll clock turn.propagated copy).2.live clock.monotonic).get? key =
          (turn.server.store.live clock.monotonic).get? key) ↔
        ∀ key ∈ server.store.evicted ++ (server.store.cacheAfter clock (received command)).lost,
          (server.store.cacheAfter clock (received command)).dict.get? key = none := by
    have agree := lags.agree_iff (server.store.evicted ++
      (server.store.cacheAfter clock (received command)).lost) id
    simp only [Option.map_id_fun, id_eq] at agree
    simp only [delivered, left]
    rw [← and_iff_left (a := ∀ key ∈ server.store.evicted ++ _, _)
      (fun key lost _ => List.mem_append_right _ lost), ← agree]
    exact forall_congr' fun key => eq_comm
  rw [← gone_iff_not_rewrites reachable.sound known writes accepted,
    ← List.forall_mem_append]
  cases holds : held clock server.store (received command) with
  | true =>
      have logged := logs_eq_not_held accepted ascii
      rw [holds] at logged sent
      obtain ⟨-, observes⟩ := observes_of_unlogged ascii known logged
      have lost : (server.store.cacheAfter clock (received command)).lost = [] :=
        List.append_right_eq_self.mp (evicted.symm.trans observes.evicted)
      have lags : Lagging (server.store.cacheAfter clock (received command))
          (copy.live clock.monotonic).get? := by
        refine ⟨fun key => Or.inl ?_, by simp [lost]⟩
        rw [← live, observes.view, equal]
      refine agrees lags fun key => ?_
      rw [sent, represents.get?]
      exact get?_delivered uncapped streams_nil storable key
  | false =>
      have logged := logs_eq_not_held accepted ascii
      rw [holds] at logged sent
      have lags := @lags_dispatch clock server.store copy (received command) reachable.sound
        uncapped.unlimited equal found known writes
      have streams := @streams_toReplicationCommand clock server.store
        (copy.onWall clock) command found accepted deliverable ascii known writes
        (fun opts parsed isSet => by
          subst isSet
          rw [← represents.isSome, equal]
          exact free_of_logged ascii logged known parsed)
        (fun milliseconds given isSet => by
          subst isSet
          by_contra large
          exact sendable ⟨known, milliseconds, given, not_lt.mp large⟩)
      refine agrees lags fun key => ?_
      rw [sent, get?_dispatch uncapped]
      exact get?_delivered uncapped streams storable key

/-- A primary that has room for a single entry. -/
def crampedServer : Server := Server.init 1 .allkeysLru none none

theorem mirrored_iff_setFresh :
    let turn := crampedServer.execute .epoch true (serverName setFresh) (received setFresh)
    ∀ key, ((deliverAll .epoch turn.propagated (.init 0 .allkeysLru)).2.live
        Clock.epoch.monotonic).get? key =
      (turn.server.store.live Clock.epoch.monotonic).get? key := by
  refine (mirrored_iff true (.init 1 .allkeysLru) (uncapped_init .allkeysLru) (fun _ => rfl)
    (by decide +kernel) (by decide +kernel) (by decide +kernel) ?_).mpr ⟨?_, ?_⟩
  · rintro ⟨-, milliseconds, given, -⟩
    have none : Command.set.expiry (received setFresh).tail = none := by decide +kernel
    rw [none] at given
    cases given
  · exact List.forall_mem_nil _
  · rintro key ⟨isMset, -⟩
    exact absurd isMset (by decide +kernel)

/-- The second pair evicts the key of the first, and the third stores it again. -/
def rewriting : List Bytes :=
  [encodeUtf8 "MSET".toList, [107], [118], [108], [118], [107], [118]]

/-- The deletion of the key arrives at the copy after the key. -/
theorem not_mirrored_rewriting :
    let turn := crampedServer.execute .epoch true (serverName rewriting) (received rewriting)
    Accepted (dispatch .epoch crampedServer.store (received rewriting)).1 ∧
      isWriteCommand (serverName rewriting) = true ∧
      ¬∀ key, ((deliverAll .epoch turn.propagated (.init 0 .allkeysLru)).2.live
          Clock.epoch.monotonic).get? key =
        (turn.server.store.live Clock.epoch.monotonic).get? key := by
  intro turn
  refine ⟨by decide +kernel, by decide +kernel, fun mirrored => ?_⟩
  have differs : ((deliverAll .epoch turn.propagated (.init 0 .allkeysLru)).2.live
      Clock.epoch.monotonic).get? (.bytes [107]) ≠
        (turn.server.store.live Clock.epoch.monotonic).get? (.bytes [107]) := by
    decide +kernel
  exact differs (mirrored (.bytes [107]))

end Copying

section Told

variable {clock : Clock} {server : Server} {authed : Bool} {command : List Bytes}

/-- A turn tells the keys that it evicts, unless it does not see that it writes. -/
theorem told_handle (told : server.store.evicted = []) (plain : ¬Disguised command) :
    (server.handle clock authed command).server.store.evicted = [] := by
  rcases Server.handle_cases clock server authed command with quiet | ⟨-, -, -, executes⟩
  · rw [quiet.observes.evicted, told]
  rw [executes]
  let counted : Server := { server with commandsProcessed := server.commandsProcessed + 1 }
  by_cases goes : Accepted (dispatch clock server.store (received command)).1 ∧
      isWriteCommand (serverName command) = true
  · obtain ⟨records, recorded⟩ := toAofCommands_of_accepted goes.1 clock.time
    rw [(Server.execute_of_accepted clock counted authed goes.1 goes.2 recorded).1]
    rfl
  · rw [(Server.execute_of_refused clock counted authed goes).1]
    have observes : Observes clock.monotonic server.store
        (dispatch clock server.store (received command)).2 := by
      by_cases accepted : Accepted (dispatch clock server.store (received command)).1
      · refine observes_of_reads fun found known writes => goes ⟨accepted, ?_⟩
        by_cases ascii : AsciiNamed command
        · rw [isWriteCommand_serverName ascii known]
          exact decide_eq_true writes
        · exact absurd accepted (refused_of_hidden plain ascii known writes)
      · exact observes_of_refused accepted
    exact observes.evicted.trans told

/-- In a run without such writes no key waits to be told as evicted. -/
theorem told_run (steps : List (Clock × ServerStep)) (told : server.store.evicted = [])
    (plain : ∀ step ∈ steps, ∀ authed command, step.2 = .command authed command →
      ¬Disguised command) :
    (server.run steps).store.evicted = [] := by
  induction steps generalizing server with
  | nil => exact told
  | cons first rest ih =>
      obtain ⟨clock, step⟩ := first
      obtain ⟨plainFirst, plainRest⟩ := List.forall_mem_cons.mp plain
      refine ih ?_ plainRest
      cases step with
      | command authed command => exact told_handle told (plainFirst authed command rfl)
      | sweep => exact (Store.sweep_frame server.store).2.2.2.trans told

end Told

end MiniCache
