import MiniCache.Protocol
import MiniCache.Store

/-!
# The commands

Every handler of the command table, and the dispatcher.  A handler takes the
clock readings, the store and the arguments after the name; it returns a reply
or the exception it raises, together with the store it leaves.
-/

namespace MiniCache

/-- The readings of `time.monotonic` and `time.time` at one instant.  The wall
clock counts nanoseconds in 64 bits. -/
structure Clock where
  monotonic : Time
  time : Time
  lower : -(2 ^ 63) ≤ time * 10 ^ 9
  upper : time * 10 ^ 9 < 2 ^ 63

def Clock.epoch : Clock := ⟨0, 0, by norm_num, by norm_num⟩

/-- The readings some milliseconds after the epoch, when both clocks agree. -/
def Clock.afterEpoch (milliseconds : UInt32) : Clock where
  monotonic := milliseconds.toNat / 1000
  time := milliseconds.toNat / 1000
  lower := by
    have positive : (0 : Time) ≤ milliseconds.toNat / 1000 := by positivity
    linarith
  upper := by
    have small : (milliseconds.toNat : Time) < 2 ^ 32 := by exact_mod_cast milliseconds.toNat_lt
    linarith

/-- What a handler can raise. -/
inductive Raised
  | wrongArity
  | badArgument (message : Text)
  | valueError (message : Text)
  | overflowError
deriving DecidableEq

abbrev Handler := Clock → Store → List Arg → Except Raised Value × Store

def Value.ofOption : Option Arg → Value
  | none => .null
  | some data => .arg data

def OK : Value := .simpleString "OK".toList

/-- `isinstance(reply, Error)`. -/
def Value.isError : Value → Bool
  | .error _ => true
  | _ => false

section Arguments

/-- `_parse_int` of the commands. -/
def parseInt (arg : Arg) : Except Raised Int :=
  let text := toText arg
  if matchesInt text then
    match intOfText text with
    | none => .error (.valueError (tooManyDigits text))
    | some number =>
        if InInt64 number then .ok number else .error (.badArgument notAnInteger)
  else
    .error (.badArgument notAnInteger)

/-- `_like`. -/
def Arg.like (sample text : Arg) : Arg :=
  match sample with
  | .bytes _ => .bytes text.wire
  | .str _ => .str (toText text)

/-- `fnmatch.fnmatchcase` on two arguments of one kind. -/
def fnmatchcase : Arg → Arg → Bool
  | .bytes name, .bytes pattern => fnmatchText (latin1 name) (latin1 pattern)
  | .str name, .str pattern => fnmatchText name pattern
  | _, _ => false

structure SetOptions where
  key : Arg
  value : Arg
  nx : Bool
  xx : Bool
  get : Bool
  ttl : Option Time
deriving DecidableEq

def syntaxError : Raised := .badArgument "syntax error".toList

/-- `_parse_ttl`. -/
def parseTtl (unit : Text) (arg : Arg) : Except Raised Time :=
  match parseInt arg with
  | .error raised => .error raised
  | .ok number =>
      if number ≤ 0 then
        .error (.badArgument "invalid expire time in 'set' command".toList)
      else if unit = "EX".toList then .ok number
      else .ok (number / 1000)

/-- The loop of `parse_set`. -/
def parseSetOptions : List Arg → SetOptions → Except Raised SetOptions
  | [], opts => .ok opts
  | arg :: rest, opts =>
      let option := upper (toText arg)
      if option = "NX".toList then parseSetOptions rest { opts with nx := true }
      else if option = "XX".toList then parseSetOptions rest { opts with xx := true }
      else if option = "GET".toList then parseSetOptions rest { opts with get := true }
      else if option = "EX".toList ∨ option = "PX".toList then
        match opts.ttl, rest with
        | none, number :: rest =>
            match parseTtl option number with
            | .error raised => .error raised
            | .ok ttl => parseSetOptions rest { opts with ttl := some ttl }
        | _, _ => .error syntaxError
      else
        .error syntaxError

/-- `parse_set`. -/
def parseSet : List Arg → Except Raised SetOptions
  | key :: value :: options =>
      match parseSetOptions options ⟨key, value, false, false, false, none⟩ with
      | .error raised => .error raised
      | .ok opts => if opts.nx && opts.xx then .error syntaxError else .ok opts
  | _ => .error syntaxError

end Arguments

section Handlers

/-- `_lookup`. -/
def lookup (clock : Clock) (store : Store) (key : Arg) : Option Arg × Store :=
  let found := store.get clock.monotonic key
  match found.1 with
  | none => (none, { found.2 with misses := found.2.misses + 1 })
  | some value => (some value, { found.2 with hits := found.2.hits + 1 })

/-- `_cmd_ping`. -/
def cmdPing : Handler := fun _ store args =>
  match args with
  | [] => (.ok (.simpleString "PONG".toList), store)
  | [message] => (.ok (.arg message), store)
  | _ => (.error .wrongArity, store)

/-- `_cmd_echo`. -/
def cmdEcho : Handler := fun _ store args =>
  match args with
  | [message] => (.ok (.arg message), store)
  | _ => (.error .wrongArity, store)

/-- Whether `NX` or `XX` holds a `SET` back. -/
def SetOptions.blocked (opts : SetOptions) (present : Bool) : Bool :=
  (opts.nx && present) || (opts.xx && !present)

/-- `_cmd_set`. -/
def cmdSet : Handler := fun clock store args =>
  if args.length < 2 then (.error .wrongArity, store)
  else match parseSet args with
    | .error raised => (.error raised, store)
    | .ok opts =>
        let found := store.existsKey clock.monotonic opts.key
        let previous : Option Arg × Store :=
          if opts.get then found.2.get clock.monotonic opts.key else (none, found.2)
        if opts.blocked found.1 then (.ok (.ofOption previous.1), previous.2)
        else
          (.ok (if opts.get then .ofOption previous.1 else OK),
            previous.2.set clock.monotonic opts.key opts.value opts.ttl)

/-- `_cmd_get`. -/
def cmdGet : Handler := fun clock store args =>
  match args with
  | [key] =>
      let found := lookup clock store key
      (.ok (.ofOption found.1), found.2)
  | _ => (.error .wrongArity, store)

/-- The loop of `_cmd_mset`. -/
def msetLoop (clock : Clock) : List Arg → Store → Store
  | key :: value :: rest, store =>
      msetLoop clock rest (store.set clock.monotonic key value none)
  | _, store => store

/-- `_cmd_mset`. -/
def cmdMset : Handler := fun clock store args =>
  if args.length < 2 ∨ args.length % 2 = 1 then (.error .wrongArity, store)
  else (.ok OK, msetLoop clock args store)

/-- The loop of `_cmd_mget`. -/
def mgetLoop (clock : Clock) : List Arg → Store → List Value × Store
  | [], store => ([], store)
  | key :: rest, store =>
      let found := lookup clock store key
      let others := mgetLoop clock rest found.2
      (.ofOption found.1 :: others.1, others.2)

/-- `_cmd_mget`. -/
def cmdMget : Handler := fun clock store args =>
  if args.length < 1 then (.error .wrongArity, store)
  else
    let found := mgetLoop clock args store
    (.ok (.list found.1), found.2)

/-- `_incr`. -/
def runIncr (clock : Clock) (store : Store) (key : Arg) (delta : Int) :
    Except Raised Value × Store :=
  let outcome := store.incr clock.monotonic key delta
  match outcome.1 with
  | .error message => (.error (.badArgument message), outcome.2)
  | .ok new => (.ok (.int new), outcome.2)

/-- A counter command with a fixed step. -/
def counter (delta : Int) : Handler := fun clock store args =>
  match args with
  | [key] => runIncr clock store key delta
  | _ => (.error .wrongArity, store)

/-- `_cmd_incr`. -/
def cmdIncr : Handler := counter 1

/-- `_cmd_decr`. -/
def cmdDecr : Handler := counter (-1)

/-- A counter command whose step is an argument, times a sign. -/
def counterBy (sign : Int) : Handler := fun clock store args =>
  match args with
  | [key, amount] =>
      match parseInt amount with
      | .error raised => (.error raised, store)
      | .ok delta => runIncr clock store key (sign * delta)
  | _ => (.error .wrongArity, store)

/-- `_cmd_incrby`. -/
def cmdIncrby : Handler := counterBy 1

/-- `_cmd_decrby`. -/
def cmdDecrby : Handler := counterBy (-1)

/-- The loop of `_cmd_del`. -/
def delLoop (clock : Clock) : List Arg → Store → Nat × Store
  | [], store => (0, store)
  | key :: rest, store =>
      let deleted := store.delete clock.monotonic key
      let others := delLoop clock rest deleted.2
      ((if deleted.1 then 1 else 0) + others.1, others.2)

/-- `_cmd_del`. -/
def cmdDel : Handler := fun clock store args =>
  if args.length < 1 then (.error .wrongArity, store)
  else
    let deleted := delLoop clock args store
    (.ok (.int deleted.1), deleted.2)

/-- The loop of `_cmd_exists`. -/
def existsLoop (clock : Clock) : List Arg → Store → Nat × Store
  | [], store => (0, store)
  | key :: rest, store =>
      let found := lookup clock store key
      let others := existsLoop clock rest found.2
      ((if found.1.isSome then 1 else 0) + others.1, others.2)

/-- `_cmd_exists`. -/
def cmdExists : Handler := fun clock store args =>
  if args.length < 1 then (.error .wrongArity, store)
  else
    let found := existsLoop clock args store
    (.ok (.int found.1), found.2)

/-- A command that gives a key a lifetime of an integral number of units. -/
def lifetime (perSecond : Time) : Handler := fun clock store args =>
  match args with
  | [key, amount] =>
      match parseInt amount with
      | .error raised => (.error raised, store)
      | .ok number =>
          let outcome := store.expire clock.monotonic key (number / perSecond)
          (.ok (.bool outcome.1), outcome.2)
  | _ => (.error .wrongArity, store)

/-- `_cmd_expire`. -/
def cmdExpire : Handler := lifetime 1

/-- `_cmd_pexpire`. -/
def cmdPexpire : Handler := lifetime 1000

/-- The quotient by 1000 rounds to no finite float. -/
def QuotientOverflows (number : Int) : Prop :=
  1000 * (2 ^ 1024 - 2 ^ 970) ≤ number.natAbs

instance (number : Int) : Decidable (QuotientOverflows number) :=
  inferInstanceAs (Decidable (_ ≤ _))

/-- `_cmd_pexpireat`. -/
def cmdPexpireat : Handler := fun clock store args =>
  match args with
  | [key, moment] =>
      match intOfText (toText moment) with
      | none => (.error (.badArgument notAnInteger), store)
      | some unixMs =>
          if QuotientOverflows unixMs then (.error .overflowError, store)
          else
            let outcome := store.expireAtUnix clock.monotonic clock.time key
              ((unixMs : Time) / 1000)
            (.ok (.bool outcome.1), outcome.2)
  | _ => (.error .wrongArity, store)

/-- `_cmd_ttl`. -/
def cmdTtl : Handler := fun clock store args =>
  match args with
  | [key] =>
      let outcome := store.ttl clock.monotonic key
      let reply : Int := match outcome.1 with
        | none => -2
        | some left => if left = -1 then -1 else ⌈left⌉
      (.ok (.int reply), outcome.2)
  | _ => (.error .wrongArity, store)

/-- `_cmd_persist`. -/
def cmdPersist : Handler := fun clock store args =>
  match args with
  | [key] =>
      let outcome := store.persist clock.monotonic key
      (.ok (.bool outcome.1), outcome.2)
  | _ => (.error .wrongArity, store)

/-- `_cmd_keys`. -/
def cmdKeys : Handler := fun clock store args =>
  match args with
  | [] =>
      let listed := store.keys clock.monotonic
      (.ok (.list (listed.1.map .arg)), listed.2)
  | [pattern] =>
      let listed := store.keys clock.monotonic
      let matching := listed.1.filter fun key => fnmatchcase key (key.like pattern)
      (.ok (.list (matching.map .arg)), listed.2)
  | _ => (.error .wrongArity, store)

/-- `_cmd_flushdb`. -/
def cmdFlushdb : Handler := fun _ store args =>
  match args with
  | [] => (.ok OK, store.flush)
  | _ => (.error .wrongArity, store)

/-- `_cmd_dbsize`. -/
def cmdDbsize : Handler := fun clock store args =>
  match args with
  | [] =>
      let outcome := store.len clock.monotonic
      (.ok (.int outcome.1), outcome.2)
  | _ => (.error .wrongArity, store)

end Handlers

section Dispatch

/-- The commands of the table. -/
inductive Command
  | ping | echo | set | get | mset | mget | incr | decr | incrby | decrby | del
  | existsKey | expire | pexpire | pexpireat | ttl | persist | keys | flushdb | dbsize
deriving DecidableEq

namespace Command

/-- The key of a command in `_COMMANDS`. -/
def name : Command → Text
  | ping => "PING".toList
  | echo => "ECHO".toList
  | set => "SET".toList
  | get => "GET".toList
  | mset => "MSET".toList
  | mget => "MGET".toList
  | incr => "INCR".toList
  | decr => "DECR".toList
  | incrby => "INCRBY".toList
  | decrby => "DECRBY".toList
  | del => "DEL".toList
  | existsKey => "EXISTS".toList
  | expire => "EXPIRE".toList
  | pexpire => "PEXPIRE".toList
  | pexpireat => "PEXPIREAT".toList
  | ttl => "TTL".toList
  | persist => "PERSIST".toList
  | keys => "KEYS".toList
  | flushdb => "FLUSHDB".toList
  | dbsize => "DBSIZE".toList

def all : List Command :=
  [ping, echo, set, get, mset, mget, incr, decr, incrby, decrby, del, existsKey,
    expire, pexpire, pexpireat, ttl, persist, keys, flushdb, dbsize]

def handler : Command → Handler
  | ping => cmdPing
  | echo => cmdEcho
  | set => cmdSet
  | get => cmdGet
  | mset => cmdMset
  | mget => cmdMget
  | incr => cmdIncr
  | decr => cmdDecr
  | incrby => cmdIncrby
  | decrby => cmdDecrby
  | del => cmdDel
  | existsKey => cmdExists
  | expire => cmdExpire
  | pexpire => cmdPexpire
  | pexpireat => cmdPexpireat
  | ttl => cmdTtl
  | persist => cmdPersist
  | keys => cmdKeys
  | flushdb => cmdFlushdb
  | dbsize => cmdDbsize

/-- `_COMMANDS.get(name)`. -/
def ofName (text : Text) : Option Command := all.find? (·.name = text)

end Command

/-- The reply to a handler's outcome, where `dispatch` catches two exceptions. -/
def replyTo (name : Text) : Except Raised Value × Store → Except Raised Value × Store
  | (.error .wrongArity, store) =>
      (.ok (.error ("ERR wrong number of arguments for '".toList ++ name ++
        "' command".toList)), store)
  | (.error (.badArgument message), store) =>
      (.ok (.error ("ERR ".toList ++ message)), store)
  | outcome => outcome

/-- `dispatch`; an exception in its outcome is one that it lets pass. -/
def dispatch (clock : Clock) (store : Store) (command : List Arg) :
    Except Raised Value × Store :=
  match command with
  | [] => (.ok (.error "ERR empty command".toList), store)
  | head :: args =>
      let name := upper (toText head)
      match Command.ofName name with
      | none =>
          (.ok (.error ("ERR unknown command '".toList ++ toText head ++ "'".toList)),
            store)
      | some command => replyTo name (command.handler clock store args)

end Dispatch

end MiniCache
