import MiniCache.BinaryHeap
import MiniCache.OrderedDict
import MiniCache.PythonText
import Mathlib.Data.List.Lex
import Mathlib.Data.Prod.Lex
import Mathlib.Data.Rat.Floor

/-!
# The in-memory store

The class `Store`: an ordered dictionary of entries with optional deadlines, a
heap of expiry records, the memory estimate and the counters.  Clock readings
are exact rationals and every operation takes the reading it works at.
-/

namespace MiniCache

/-- A clock reading or a duration, in seconds. -/
abbrev Time := ℚ

/-- The eviction policies of the store. -/
inductive Policy
  | allkeysLru
  | noeviction
deriving DecidableEq

def ENTRY_OVERHEAD : Nat := 96

/-- The code of an argument that Python compares: `bytes` by byte and `str` by
code point.  A comparison of the two kinds raises in Python; here it puts
`bytes` first. -/
def Arg.sortKey : Arg → List Nat
  | .bytes data => 0 :: data.map UInt8.toNat
  | .str text => 1 :: text.map Char.toNat

theorem Arg.sortKey_injective : Function.Injective Arg.sortKey := by
  intro first second same
  cases first <;> cases second <;>
    simp only [Arg.sortKey, List.cons.injEq, true_and, zero_ne_one, one_ne_zero,
      false_and] at same
  · exact congrArg Arg.bytes
      (List.map_injective_iff.mpr (fun _ _ => UInt8.toNat.inj) same)
  · exact congrArg Arg.str
      (List.map_injective_iff.mpr (fun _ _ => Char.toNat_inj.mp) same)

instance : LinearOrder Arg := LinearOrder.lift' Arg.sortKey Arg.sortKey_injective

/-- `_size`. -/
def size : Arg → Nat
  | .bytes data => data.length
  | .str text => text.length

/-- Text in the type of a sample argument. -/
def Arg.ofText (sample : Arg) (text : Text) : Arg :=
  match sample with
  | .bytes _ => .bytes (encodeUtf8 text)
  | .str _ => .str text

/-- `_INT_RE.fullmatch(text)`. -/
def matchesInt (text : Text) : Bool :=
  match text with
  | '-' :: digits => !digits.isEmpty && digits.all Char.isDigit
  | digits => !digits.isEmpty && digits.all Char.isDigit

theorem matchesInt_of_allDigits {text : Text} (digits : AllDigits text) :
    matchesInt text = true := by
  unfold matchesInt
  split
  · exact absurd (digits.2 '-' (List.mem_cons_self ..)) (by decide)
  · simp only [Bool.and_eq_true, Bool.not_eq_true', List.isEmpty_eq_false_iff, List.all_eq_true]
    exact digits

theorem matchesInt_neg {run : Text} (digits : AllDigits run) : matchesInt ('-' :: run) = true := by
  simp only [matchesInt, Bool.and_eq_true, Bool.not_eq_true', List.isEmpty_eq_false_iff,
    List.all_eq_true]
  exact digits

def InInt64 (number : Int) : Prop := -(2 ^ 63) ≤ number ∧ number ≤ 2 ^ 63 - 1

instance (number : Int) : Decidable (InInt64 number) :=
  inferInstanceAs (Decidable (_ ∧ _))

def notAnInteger : Text := "value is not an integer or out of range".toList

/-- The text of the `ValueError` that `int` raises past its digit limit. -/
def tooManyDigits (text : Text) : Text :=
  "Exceeds the limit (4300 digits) for integer string conversion: value has ".toList ++
    intText (text.filter Char.isDigit).length ++
    " digits; use sys.set_int_max_str_digits() to increase the limit".toList

/-- `_stored_int`, with the text of the `ValueError` it raises. -/
def storedInt (value : Arg) : Except Text Int :=
  let text := match value with
    | .bytes data => decodeAscii data
    | .str text => text
  if matchesInt text then
    match intOfText text with
    | none => .error (tooManyDigits text)
    | some number => if InInt64 number then .ok number else .error notAnInteger
  else
    .error notAnInteger

structure Entry where
  value : Arg
  expireAt : Option Time
  size : Nat
deriving DecidableEq

/-- `Store._is_expired`. -/
def Entry.isExpired (entry : Entry) (now : Time) : Bool :=
  match entry.expireAt with
  | none => false
  | some expireAt => expireAt ≤ now

structure Store where
  data : OrderedDict Arg Entry
  expiryHeap : Array (Time ×ₗ Arg)
  maxmemory : Nat
  policy : Policy
  usedMemory : Int
  writes : Nat
  hits : Nat
  misses : Nat
  expiredKeys : Nat
  evictedKeys : Nat
  evicted : List Arg

/-- `Store.__init__`. -/
def Store.init (maxmemory : Nat) (policy : Policy) : Store where
  data := .empty
  expiryHeap := #[]
  maxmemory := maxmemory
  policy := policy
  usedMemory := 0
  writes := 0
  hits := 0
  misses := 0
  expiredKeys := 0
  evictedKeys := 0
  evicted := []

namespace Store

/-- `Store._cost`. -/
def cost (key value : Arg) : Nat := ENTRY_OVERHEAD + size key + size value

/-- `Store.over_limit`. -/
def overLimit (store : Store) : Bool :=
  0 < store.maxmemory && (store.maxmemory : Int) < store.usedMemory

/-- `Store.drain_evictions`. -/
def drainEvictions (store : Store) : List Arg × Store :=
  (store.evicted, { store with evicted := [] })

/-- `Store._put`. -/
def put (store : Store) (key value : Arg) (expireAt : Option Time) : Store :=
  let released := match store.data.get? key with
    | none => 0
    | some old => old.size
  { store with
    usedMemory := store.usedMemory - released + cost key value
    data := (store.data.setItem key ⟨value, expireAt, cost key value⟩).moveToEnd key }

/-- `Store._remove`. -/
def remove (store : Store) (key : Arg) (expired : Bool) : Store :=
  match store.data.get? key with
  | none => store
  | some entry =>
      { store with
        data := store.data.pop key
        usedMemory := store.usedMemory - entry.size
        expiredKeys := store.expiredKeys + if expired then 1 else 0 }

/-- The loop of `sweep_expired`; every turn pops one record. -/
def sweepLoop (now : Time) : Nat → Nat → Store → Nat × Store
  | 0, removed, store => (removed, store)
  | fuel + 1, removed, store =>
      match store.expiryHeap[0]?, BinaryHeap.heappop store.expiryHeap with
      | some root, some (record, rest) =>
          if (ofLex root).1 ≤ now then
            let expireAt := (ofLex record).1
            let key := (ofLex record).2
            let popped := { store with expiryHeap := rest }
            match popped.data.get? key with
            | some entry =>
                if entry.expireAt = some expireAt then
                  sweepLoop now fuel (removed + 1) (popped.remove key true)
                else
                  sweepLoop now fuel removed popped
            | none => sweepLoop now fuel removed popped
          else
            (removed, store)
      | _, _ => (removed, store)

/-- `Store.sweep_expired`: the number of entries removed and the store left. -/
def sweepExpired (store : Store) (now : Time) : Nat × Store :=
  sweepLoop now store.expiryHeap.size 0 store

/-- The loop of `_evict`; every turn drops the oldest entry. -/
def evictLoop : Nat → Store → Store
  | 0, store => store
  | fuel + 1, store =>
      if store.overLimit && 1 < store.data.size then
        match store.data.first? with
        | none => store
        | some (key, _) =>
            let removed := store.remove key false
            evictLoop fuel
              { removed with
                evictedKeys := removed.evictedKeys + 1
                evicted := removed.evicted ++ [key] }
      else
        store

/-- `Store._evict`. -/
def evict (store : Store) (now : Time) : Store :=
  if store.policy ≠ .allkeysLru || !store.overLimit then
    store
  else
    let swept := (store.sweepExpired now).2
    evictLoop swept.data.size swept

/-- The expiry records of all entries with a deadline. -/
def expiryRecords (store : Store) : Array (Time ×ₗ Arg) :=
  (store.data.entries.filterMap fun (key, entry) =>
    entry.expireAt.map fun expireAt => toLex (expireAt, key)).toArray

/-- `Store._schedule`. -/
def schedule (store : Store) (key : Arg) (expireAt : Time) : Store :=
  let heap := BinaryHeap.heappush store.expiryHeap (toLex (expireAt, key))
  if 4 * store.data.size + 1024 < heap.size then
    { store with expiryHeap := BinaryHeap.heapify store.expiryRecords }
  else
    { store with expiryHeap := heap }

/-- `Store.set`. -/
def set (store : Store) (now : Time) (key value : Arg) (ttl : Option Time) :
    Store :=
  let counted := { store with writes := store.writes + 1 }
  let expireAt := ttl.map (now + ·)
  let stored := counted.put key value expireAt
  let scheduled := match expireAt with
    | none => stored
    | some expireAt => stored.schedule key expireAt
  scheduled.evict now

/-- The live entry of a key.  An expired entry is removed on the way, which is
how `get`, `ttl`, `incr`, `expire` and `persist` begin. -/
def fetch (store : Store) (now : Time) (key : Arg) : Option Entry × Store :=
  match store.data.get? key with
  | none => (none, store)
  | some entry =>
      if entry.isExpired now then (none, store.remove key true)
      else (some entry, store)

/-- Change the value of a present entry in place and make it the newest. -/
def overwrite (store : Store) (key value : Arg) (entry : Entry) : Store :=
  { store with
    data := (store.data.moveToEnd key).setItem key
      { entry with value := value, size := cost key value }
    usedMemory := store.usedMemory - entry.size + cost key value }

/-- `Store.incr`, with the text of the `ValueError` it raises. -/
def incr (store : Store) (now : Time) (key : Arg) (delta : Int) :
    Except Text Int × Store :=
  let (entry, store) := store.fetch now key
  let sample := match entry with
    | none => key
    | some entry => entry.value
  let current : Except Text Int := match entry with
    | none => .ok 0
    | some entry => storedInt entry.value
  match current with
  | .error message => (.error message, store)
  | .ok current =>
      let new := current + delta
      if InInt64 new then
        let value := sample.ofText (intText new)
        let counted := { store with writes := store.writes + 1 }
        let stored := match entry with
          | none => counted.put key value none
          | some entry => counted.overwrite key value entry
        (.ok new, stored.evict now)
      else
        (.error "increment or decrement would overflow".toList, store)

/-- `Store.delete`. -/
def delete (store : Store) (now : Time) (key : Arg) : Bool × Store :=
  match store.data.get? key with
  | none => (false, store)
  | some entry =>
      let expired := entry.isExpired now
      (!expired, store.remove key expired)

/-- `Store.expire`. -/
def expire (store : Store) (now : Time) (key : Arg) (ttl : Time) : Bool × Store :=
  match store.fetch now key with
  | (none, store) => (false, store)
  | (some entry, store) =>
      let expireAt := now + ttl
      let changed :=
        { store with
          data := store.data.setItem key { entry with expireAt := some expireAt } }
      (true, changed.schedule key expireAt)

/-- `Store.expire_at_unix`, where `time` is the reading of the wall clock. -/
def expireAtUnix (store : Store) (now time : Time) (key : Arg)
    (unixSeconds : Time) : Bool × Store :=
  store.expire now key (unixSeconds - time)

/-- `Store.persist`. -/
def persist (store : Store) (now : Time) (key : Arg) : Bool × Store :=
  match store.fetch now key with
  | (none, store) => (false, store)
  | (some entry, store) =>
      match entry.expireAt with
      | none => (false, store)
      | some _ =>
          (true, { store with
            data := store.data.setItem key { entry with expireAt := none } })

/-- `Store.flush`. -/
def flush (store : Store) : Store :=
  { store with data := .empty, expiryHeap := #[], usedMemory := 0 }

/-- `Store.get`. -/
def get (store : Store) (now : Time) (key : Arg) : Option Arg × Store :=
  match store.fetch now key with
  | (none, store) => (none, store)
  | (some entry, store) =>
      (some entry.value, { store with data := store.data.moveToEnd key })

/-- `Store.exists`. -/
def existsKey (store : Store) (now : Time) (key : Arg) : Bool × Store :=
  let found := store.get now key
  (found.1.isSome, found.2)

/-- `Store.ttl`: none for a missing key and `-1` for a key without deadline. -/
def ttl (store : Store) (now : Time) (key : Arg) : Option Time × Store :=
  match store.fetch now key with
  | (none, store) => (none, store)
  | (some entry, store) =>
      match entry.expireAt with
      | none => (some (-1), store)
      | some expireAt => (some (max 0 (expireAt - now)), store)

/-- `Store.keys`. -/
def keys (store : Store) (now : Time) : List Arg × Store :=
  let swept := (store.sweepExpired now).2
  (swept.data.keys, swept)

/-- `Store.snapshot`. -/
def snapshot (store : Store) (now : Time) :
    List (Arg × Arg × Option Time) × Store :=
  let swept := (store.sweepExpired now).2
  (swept.data.entries.filterMap fun (key, entry) =>
    if entry.isExpired now then none
    else some (key, entry.value, entry.expireAt.map (· - now)), swept)

/-- `Store.__len__`. -/
def len (store : Store) (now : Time) : Nat × Store :=
  let swept := (store.sweepExpired now).2
  (swept.data.size, swept)

end Store

end MiniCache
