import MiniCache.ClusterServers
import MiniCache.RingOwners

/-!
# A cluster as one server

A cluster answers a run of calls as one server without a memory limit does, however many
shards there are and in whatever order they take their turns.  The shards together hold what
the server holds: a key lives on the shard that owns it and nowhere else.
-/

namespace MiniCache

open ExpiringMap (applyAll)
open ScatterGather (collect share answered fill steps)

section Requests

variable {clock : Clock} {link next : Link} {head : Arg} {args : List Arg} {found : Command}
  {reply value : Value} {left : Store} {read : Value → Option Outcome} {outcome : Outcome}

namespace Link

/-- What is known of a reply to a command of the table. -/
theorem Ready.sendable_iff (ready : link.Ready) (names : Names found head)
    (deliverable : Deliverable ((head :: args).map Arg.wire))
    (dispatched : dispatch clock link.server.store (head.asBytes :: args.map Arg.asBytes) =
      (.ok reply, left)) :
    reply.Shallow ∧
      (reply.Sendable ↔ found.Presentable clock link.server.store (args.map Arg.asBytes)) := by
  have form : ((head :: args).map Arg.wire).map Arg.bytes =
      head.asBytes :: args.map Arg.asBytes := received_parts head args
  have known : Command.ofCommand (((head :: args).map Arg.wire).map Arg.bytes) = some found := by
    rw [form]
    exact names.known
  have raising := isOk_dispatch clock link.server.store (head.asBytes :: args.map Arg.asBytes)
  rw [dispatched] at raising
  have fine : raises (((head :: args).map Arg.wire).map Arg.bytes) = false := by
    rw [form]
    simpa [Except.isOk, Except.toBool] using raising
  obtain ⟨other, done, shallow, sendable⟩ :=
    @dispatch_known_reply link.server.store clock _ found ready.reachable deliverable known fine
  rw [form, dispatched] at done
  obtain rfl := Except.ok.inj done
  refine ⟨shallow, ?_⟩
  rwa [← List.map_tail, List.tail_cons, List.map_map] at sendable

/-- A question that gets an answer is a request whose reply is made sense of. -/
theorem ask_eq_some_iff :
    link.ask clock (head :: args) read = some (outcome, next) ↔
      ∃ reply, link.request clock (head :: args) = some (reply, next) ∧
        ((∃ text, reply = .error text ∧ outcome = .clusterError text) ∨
          reply.isError = false ∧ read reply = some outcome) := by
  unfold ask
  simp only [Option.bind_eq_some_iff, Prod.exists]
  constructor
  · rintro ⟨reply, after, requested, made⟩
    cases reply with
    | error text =>
        obtain ⟨rfl, rfl⟩ := Prod.mk.inj (Option.some.inj made)
        exact ⟨_, requested, Or.inl ⟨text, rfl, rfl⟩⟩
    | simpleString | bool | int | null | arg | list =>
        obtain ⟨_, sense, same⟩ := Option.map_eq_some_iff.mp made
        obtain ⟨rfl, rfl⟩ := Prod.mk.inj same
        exact ⟨_, requested, Or.inr ⟨rfl, sense⟩⟩
  · rintro ⟨reply, requested, ⟨text, rfl, rfl⟩ | ⟨fine, sense⟩⟩
    · exact ⟨_, next, requested, rfl⟩
    · refine ⟨reply, next, requested, ?_⟩
      cases reply with
      | error text => cases fine
      | simpleString | bool | int | null | arg | list => simp only [sense, Option.map_some]

/-- The reply to an answered question on an idle link, when it is within the limits. -/
theorem Ready.answered (ready : link.Ready) (names : Names found head)
    (deliverable : Deliverable ((head :: args).map Arg.wire))
    (asked : link.request clock (head :: args) = some (value, next))
    (sendable : ∀ reply left, dispatch clock link.server.store
        (head.asBytes :: args.map Arg.asBytes) = (.ok reply, left) →
      readReply (encode reply) = .ok (value, next.outbox) → reply.Sendable) :
    ∃ reply, dispatch clock link.server.store (head.asBytes :: args.map Arg.asBytes) =
        (.ok reply, next.server.store) ∧ reply.Sendable ∧ value = reply.normal ∧ next.Ready := by
  obtain ⟨reply, left, dispatched, read⟩ := ready.returned names deliverable asked
  have small := sendable reply left dispatched read
  obtain ⟨after, requested, idle, store⟩ := ready.request names deliverable dispatched small
  obtain ⟨rfl, rfl⟩ := Prod.mk.inj (Option.some.inj (asked.symm.trans requested))
  exact ⟨reply, store ▸ dispatched, small, rfl, idle⟩

/-- One command that is written and answered. -/
theorem exchange_of_request {parts : List Arg}
    (requested : link.request clock parts = some (value, next)) :
    ∃ served : Link, steps (turn clock) 1 (link.write ([parts].flatMap encodeCommand)) =
        some served ∧ served.receive 1 = some ([value], next) := by
  unfold request at requested
  obtain ⟨served, taken, received⟩ := Option.bind_eq_some_iff.mp requested
  refine ⟨served, ?_, ?_⟩
  · rw [List.flatMap_singleton, steps, taken]
    rfl
  · cases read : readReply served.outbox with
    | error error =>
        rw [read] at received
        cases received
    | ok done =>
        rw [read] at received
        obtain ⟨rfl, rfl⟩ := Prod.mk.inj (Option.some.inj received)
        rw [receive, readMany]
        simp only [bind, Except.bind, read, readMany]

end Link

end Requests

section Mirrors

variable {route : Bytes → Option Text} {now : Time} {clock : Clock} {shards : Shards}
  {link next : Link}

/-- The shards together hold what one server holds: each key on its owner alone. -/
structure Mirrors (route : Bytes → Option Text) (now : Time) (shards : Shards) (link : Link) :
    Prop where
  ready : ∀ node, (shards node).Ready
  one : link.Ready
  own : ∀ data node, route data = some node →
    ((shards node).server.store.live now).get? (.bytes data) =
      (link.server.store.live now).get? (.bytes data)
  foreign : ∀ data node, route data ≠ some node →
    ((shards node).server.store.live now).get? (.bytes data) = none

theorem Mirrors.later (mirrors : Mirrors route now shards link) {later : Time}
    (inOrder : now ≤ later) : Mirrors route later shards link := by
  have again (store : Store) (key : Arg) : (store.live later).get? key =
      ExpiringMap.live later ((store.live now).get? key) := by
    rw [← Store.live_plain, ← Store.live_plain, ExpiringMap.live_live inOrder]
  refine ⟨mirrors.ready, mirrors.one, fun data node owned => ?_, fun data node other => ?_⟩
  · rw [again, again, mirrors.own data node owned]
  · rw [again, mirrors.foreign data node other]
    rfl

/-- What a reply tells of the links after a command that only looks. -/
theorem Mirrors.looked {after : Shards} (mirrors : Mirrors route now shards link)
    (ready : ∀ node, (after node).Ready) (one : next.Ready)
    (views : ∀ node key, ((after node).server.store.live now).get? key =
      ((shards node).server.store.live now).get? key)
    (view : ∀ key, (next.server.store.live now).get? key =
      (link.server.store.live now).get? key) : Mirrors route now after next := by
  refine ⟨ready, one, fun data node owned => ?_, fun data node other => ?_⟩
  · rw [views, view, mirrors.own data node owned]
  · rw [views, mirrors.foreign data node other]

variable {found : Command} {head : Arg} {args : List Arg} {key : Arg} {node : Text}
  {read : Value → Option Outcome} {outcome : Outcome}

/-- A command about one key, sent to its owner, is answered as by the one server. -/
theorem Mirrors.ask (mirrors : Mirrors route clock.monotonic shards link)
    (names : Names found head) (keyed : found.Keyed)
    (keys : found.keysOf (args.map Arg.asBytes) = [key.asBytes])
    (owner : route key.wire = some node)
    (deliverable : Deliverable ((head :: args).map Arg.wire))
    (small : ∀ reply left value rest, dispatch clock link.server.store
        (head.asBytes :: args.map Arg.asBytes) = (.ok reply, left) →
      readReply (encode reply) = .ok (value, rest) → reply.Sendable)
    (asked : link.ask clock (head :: args) read = some (outcome, next)) :
    ∃ after, (shards node).ask clock (head :: args) read = some (outcome, after) ∧
      Mirrors route clock.monotonic (Function.update shards node after) next := by
  obtain ⟨value, requested, sense⟩ := Link.ask_eq_some_iff.mp asked
  obtain ⟨reply, dispatched, sendable, rfl, idle⟩ := mirrors.one.answered names deliverable
    requested fun reply left done read => small reply left _ _ done read
  let command : List Arg := head.asBytes :: args.map Arg.asBytes
  have known : Command.ofCommand command = some found := names.known
  have named : commandKeys command = [key.asBytes] := by
    rw [commandKeys, known]
    exact keys
  have isKeyed : Keyed command := by
    intro other isOther
    obtain rfl := Option.some.inj (known.symm.trans isOther)
    exact keyed
  have shard := mirrors.ready node
  have alike : LiveAlike clock (shards node).server.store link.server.store
      (commandKeys command) := by
    intro other member
    rw [named, List.mem_singleton] at member
    subst member
    exact mirrors.own key.wire node owner
  have same : (dispatch clock (shards node).server.store command).1 = .ok reply := by
    rw [dispatch_congr isKeyed shard.plain mirrors.one.plain alike]
    exact congrArg Prod.fst dispatched
  have answered : dispatch clock (shards node).server.store command =
      (.ok reply, (dispatch clock (shards node).server.store command).2) := Prod.ext same rfl
  have left : (dispatch clock link.server.store command).2 = next.server.store :=
    congrArg Prod.snd dispatched
  obtain ⟨after, reached, ready, store⟩ := shard.request names deliverable answered sendable
  have others {data : Bytes} (different : data ≠ key.wire) : .bytes data ∉ commandKeys command := by
    rw [named, List.mem_singleton]
    exact fun same => different (Arg.bytes.inj same)
  refine ⟨after, Link.ask_eq_some_iff.mpr ⟨_, reached, sense⟩, ?_, idle, ?_, ?_⟩
  · intro other
    by_cases here : other = node
    · subst here
      rwa [Function.update_self]
    · rw [Function.update_of_ne here]
      exact mirrors.ready other
  · intro data other owned
    by_cases here : other = node
    · subst here
      rw [Function.update_self, store, ← left]
      exact live_dispatch_congr shard.plain mirrors.one.plain alike (mirrors.own data other owned)
    · have different : data ≠ key.wire := by
        rintro rfl
        exact here (Option.some.inj (owned.symm.trans owner))
      rw [Function.update_of_ne here, ← left,
        live_dispatch_of_notMem isKeyed mirrors.one.plain (others different)]
      exact mirrors.own data other owned
  · intro data other unowned
    by_cases here : other = node
    · subst here
      have different : data ≠ key.wire := by
        rintro rfl
        exact unowned owner
      rw [Function.update_self, store,
        live_dispatch_of_notMem isKeyed shard.plain (others different)]
      exact mirrors.foreign data other unowned
    · rw [Function.update_of_ne here]
      exact mirrors.foreign data other unowned

end Mirrors

end MiniCache
