/-
This file models the statistics at the grain at which the program keeps them: every counter is an
atomic of its own, and the lines of the request log are written under a mutex, by as many writes as
the system takes. Elsewhere one request is recorded in one atomic action.
-/

import Cicache.World
import Cicache.Lib.History
import Mathlib.Data.UInt

namespace Cicache

open Text Interleaving

/-- The counters of `Stats`. -/
inductive Counter where
  | requests
  | hits
  | misses
  | stored
  | passthrough
  | errors
  | bytes_from_cache
  | bytes_from_network
  | bytes_uploaded
  | entries_stored
  | packed
  | packed_bytes
  | uploads_failed
  | upstream_millis
  deriving DecidableEq

/-- `Stats`: the counters, the bytes of the log if one was opened, whether its mutex is taken. -/
structure Stats where
  counters : Counter → UInt64
  log : Option Bytes
  locked : Bool

/-- The counters that are only added to. -/
def Counter.added : Counter → Bool
  | .packed | .packed_bytes => false
  | _ => true

namespace Stats

/-- Setting one counter. -/
def set (stats : Stats) (counter : Counter) (value : UInt64) : Stats :=
  { stats with counters := Function.update stats.counters counter value }

@[simp] theorem set_self (stats : Stats) (counter : Counter) (value : UInt64) :
    (stats.set counter value).counters counter = value := Function.update_self ..

theorem set_of_ne {counter other : Counter} (different : other ≠ counter) (stats : Stats)
    (value : UInt64) : (stats.set counter value).counters other = stats.counters other :=
  Function.update_of_ne different ..

/-! ### Actions -/

/-- The atomic actions: on a counter, on the mutex of the log, and one write to the log. A write
that is interrupted changes nothing and is made again; `write` is the one that is not. -/
inductive Act where
  | fetch_add (counter : Counter) (amount : UInt64)
  | store (counter : Counter) (value : UInt64)
  | load (counter : Counter)
  | lock
  | write (bytes : Bytes)
  | unlock

/-- What an action answers: locking says whether there is a log, and a write how many bytes it took,
if it did not fail. -/
@[reducible] def Answer : Act → Type
  | .fetch_add _ _ => Unit
  | .store _ _ => Unit
  | .load _ => UInt64
  | .lock => Bool
  | .write _ => Option Nat
  | .unlock => Unit

abbrev Task := Program Act Answer

abbrev act (action : Act) : Task (Answer action) := Program.act action

/-- What the environment decides: nothing, or how a write ends. -/
inductive Choice where
  | quiet
  | took (count : Option Nat)

/-- One action. A write takes a beginning of its bytes, which the log grows by. -/
def exec (_ : Nat) (action : Act) (choice : Choice) (stats : Stats) :
    Option (Answer action × Stats) :=
  match action with
  | .fetch_add counter amount => some ((), stats.set counter (stats.counters counter + amount))
  | .store counter value => some ((), stats.set counter value)
  | .load counter => some (stats.counters counter, stats)
  | .lock => if stats.locked then none else some (stats.log.isSome, { stats with locked := true })
  | .write bytes =>
      match choice with
      | .took (some count) =>
          if count ≤ bytes.length then
            some (some count, { stats with log := stats.log.map (· ++ bytes.take count) })
          else none
      | .took none => some (none, stats)
      | .quiet => none
  | .unlock => some ((), { stats with locked := false })

/-! ### The calls -/

/-- `Write::write_all`, as long as there are rounds: writing goes on behind what was taken, and ends
where nothing is. -/
def write_rounds : Nat → Bytes → Task Unit
  | 0, _ => return ()
  | rounds + 1, bytes => do
    if bytes = [] then return ()
    else
      match ← act (.write bytes) with
      | some count => if count = 0 then return () else write_rounds rounds (bytes.drop count)
      | none => return ()

/-- `Write::write_all`: each write but the last takes a byte. -/
def write_all (bytes : Bytes) : Task Unit := write_rounds bytes.length bytes

/-- `{:<width}` and `{:>width}`. -/
def align_left (width : Nat) (text : String) : String :=
  text ++ String.ofList (List.replicate (width - text.length) ' ')

def align_right (width : Nat) (text : String) : String :=
  String.ofList (List.replicate (width - text.length) ' ') ++ text

/-- The label of an outcome. -/
def label : Outcome → String
  | .Hit => "HIT  "
  | .Stored => "MISS "
  | .Miss reason => "MISS (" ++ reason ++ ")"
  | .Pass reason => "PASS (" ++ reason ++ ")"
  | .Error reason => "ERROR (" ++ reason ++ ")"

section Calls

variable (human_bytes : UInt64 → String)

/-- The line of a request in the log. -/
def line (outcome : Outcome) (method url : String) (bytes millis : UInt64) : String :=
  align_left 32 (label outcome) ++ " " ++ align_right 10 (human_bytes bytes) ++ " " ++
    align_right 8 (Nat.repr millis.toNat ++ "ms") ++ "  " ++ method ++ " " ++ url ++
    (if outcome = .Stored then "  -> stored" else "") ++ "\n"

/-- The part of `record` that counts. -/
def count (outcome : Outcome) (bytes millis : UInt64) : Task Unit := do
  act (.fetch_add .requests 1)
  match outcome with
  | .Hit =>
    act (.fetch_add .hits 1)
    act (.fetch_add .bytes_from_cache bytes)
  | .Stored =>
    act (.fetch_add .misses 1)
    act (.fetch_add .stored 1)
    act (.fetch_add .bytes_from_network bytes)
    act (.fetch_add .upstream_millis millis)
  | .Miss _ =>
    act (.fetch_add .misses 1)
    act (.fetch_add .bytes_from_network bytes)
    act (.fetch_add .upstream_millis millis)
  | .Pass _ =>
    act (.fetch_add .passthrough 1)
    act (.fetch_add .bytes_from_network bytes)
  | .Error _ => act (.fetch_add .errors 1)

/-- The part of `record` that writes the log; `File::flush` does nothing. -/
def write_log (text : Bytes) : Task Unit := do
  if ← act .lock then
    write_all text
    act .unlock
  else act .unlock

def record (outcome : Outcome) (method url : String) (bytes millis : UInt64) : Task Unit := do
  count outcome bytes millis
  write_log (utf8 (line human_bytes outcome method url bytes millis))

def record_upload (bytes : UInt64) (ok : Bool) : Task Unit := do
  if ok then
    act (.fetch_add .entries_stored 1)
    act (.fetch_add .bytes_uploaded bytes)
  else act (.fetch_add .uploads_failed 1)

def record_packed (objects bytes : UInt64) : Task Unit := do
  act (.store .packed objects)
  act (.store .packed_bytes bytes)

def summary : Task Summary := do
  return ⟨(← act (.load .requests)).toNat, (← act (.load .hits)).toNat,
    (← act (.load .misses)).toNat, (← act (.load .stored)).toNat,
    (← act (.load .passthrough)).toNat, (← act (.load .errors)).toNat,
    (← act (.load .bytes_from_cache)).toNat, (← act (.load .bytes_from_network)).toNat,
    (← act (.load .bytes_uploaded)).toNat, (← act (.load .entries_stored)).toNat,
    (← act (.load .packed)).toNat, (← act (.load .packed_bytes)).toNat,
    (← act (.load .uploads_failed)).toNat, (← act (.load .upstream_millis)).toNat⟩

/-- The calls of the other tasks. -/
inductive Call where
  | record (outcome : Outcome) (method url : String) (bytes millis : UInt64)
  | record_upload (bytes : UInt64) (ok : Bool)
  | record_packed (objects bytes : UInt64)
  | summary

/-- What a call returns: `summary` what it read. -/
abbrev Value := Option Summary

/-- The program of a call. -/
def program : Call → Task Value
  | .record outcome method url bytes millis => do
    record human_bytes outcome method url bytes millis
    return none
  | .record_upload bytes ok => do
    record_upload bytes ok
    return none
  | .record_packed objects bytes => do
    record_packed objects bytes
    return none
  | .summary => do return some (← summary)

/-- The calls on one `Stats`, each a task of its own. -/
def machine : Machine Act Answer Nat Stats Choice Call Value where
  exec := exec
  again _ _ := none
  accept _ call stats := some (program human_bytes call, stats)

/-- `Stats::default` with a log that was opened, or none. -/
def opened (log : Option Bytes) : Config Act Answer Nat Stats Value where
  shared := ⟨fun _ => 0, log, false⟩
  tasks _ := none

end Calls

end Stats

end Cicache
