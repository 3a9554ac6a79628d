/-
This file models the commands of `main` and how they share a state directory. `start` spawns the
daemon and waits for the file it announces itself with; the daemon serves until it is told to stop,
flushes, and writes its summary; `stop` asks it to, waits until the summary is there, reports it and
cleans up. The job runs `start` and `stop` one after the other, again and again, while the daemons
run beside them. All they know of each other is what files there are.

A file is written in two steps: it is created empty, and then it gets its contents. Both files hold
text, so the serialisers are taken to give text.
-/

import Cicache.Lib.Machine
import Cicache.Crates

namespace Cicache

open Text Interleaving

namespace Command

/-! ### What is in the files -/

/-- `main::State`. -/
structure State where
  pid : Nat
  port : UInt16
  ca_path : String
  bundle_path : String
  log_path : String
  deriving DecidableEq

/-- The serialisers: `serde_json::to_vec_pretty` and `serde_json::from_str`. -/
structure Serde where
  state_to_vec : State → String
  state_from_str : String → Option State
  summary_to_vec : Summary → String
  summary_from_str : String → Option Summary

/-- The two files of the state directory by which the commands know of each other. -/
inductive File where
  | state_json
  | summary_json
  deriving DecidableEq

/-! ### Actions -/

/-- What a command does. -/
inductive Act where
  /-- `Path::exists`, `read_to_string`, and the two steps of `std::fs::write`; removing a file. -/
  | exists_ (file : File)
  | read_to_string (file : File)
  | create (file : File)
  | write (file : File) (contents : String)
  | remove_file (file : File)
  /-- `create_dir_all` and `remove_dir_all` of the directory of the objects. -/
  | create_objects
  | remove_objects
  /-- Spawning the daemon, and whether the deadline of a wait has passed. -/
  | spawn
  | past_deadline
  | write_curlrc
  | clear_curlrc
  | install_system_trust
  | remove_system_trust
  /-- Everything the daemon sets up before it announces itself, and what it announces. -/
  | set_up
  /-- Serving until a shutdown is requested or the process is interrupted. -/
  | serve
  /-- The end of `Store::flush`, and the summary of the statistics then. -/
  | flush
  | exit
  | post_shutdown (port : UInt16)

/-- What an action answers. -/
@[reducible] def Answer : Act → Type
  | .exists_ _ => Bool
  | .read_to_string _ => Option String
  | .create _ => Bool
  | .write _ _ => Bool
  | .remove_file _ => Unit
  | .create_objects => Bool
  | .remove_objects => Unit
  | .spawn => Bool
  | .past_deadline => Bool
  | .write_curlrc => Unit
  | .clear_curlrc => Unit
  | .install_system_trust => Unit
  | .remove_system_trust => Unit
  | .set_up => Option State
  | .serve => Bool
  | .flush => Summary
  | .exit => Unit
  | .post_shutdown _ => Unit

abbrev Task := Program Act Answer

abbrev act (action : Act) : Task (Answer action) := Program.act action

/-! ### The commands -/

/-- What `stop` ends with: there was nothing to stop, one of the files did not parse and it returned
early, or it cleaned up, having reported a summary or none. -/
inductive Report where
  | nothing
  | unreadable_state
  | unreadable_summary
  | cleaned (summary : Option Summary)
  deriving DecidableEq

/-- What a round of a process ends with. -/
inductive Phase where
  | waiting
  | started
  | failed
  | polling
  | stopped (report : Report)
  | ended

/-- `std::fs::write`. -/
def write (file : File) (contents : String) : Task Bool := do
  if ← act (.create file) then act (.write file contents) else return false

/-- `start`, up to the wait for the daemon. -/
def start : Task Phase := do
  if ← act (.exists_ .state_json) then return .failed
  else if ← act .create_objects then
    if ← act .spawn then return .waiting else return .failed
  else return .failed

/-- One round of `wait_for_state`, and the end of `start` behind it. -/
def wait_for_state (serde : Serde) : Task Phase := do
  if ← act .past_deadline then return .failed
  else
    match ← act (.read_to_string .state_json) with
    | none => return .waiting
    | some contents =>
      match serde.state_from_str contents with
      | none => return .waiting
      | some _ =>
        act .write_curlrc
        act .install_system_trust
        return .started

/-- `run`, the daemon. -/
def run (serde : Serde) : Task Phase := do
  if ← act .create_objects then
    match ← act .set_up with
    | none => return .failed
    | some state =>
      if ← write .state_json (serde.state_to_vec state) then
        if ← act .serve then
          let summary ← act .flush
          if ← write .summary_json (serde.summary_to_vec summary) then
            act .exit
            return .ended
          else return .failed
        else return .failed
      else return .failed
  else return .failed

/-- `stop`, up to the wait for the summary. -/
def stop (serde : Serde) : Task Phase := do
  match ← act (.read_to_string .state_json) with
  | none => return .stopped .nothing
  | some contents =>
    match serde.state_from_str contents with
    | none => return .stopped .unreadable_state
    | some state =>
      act (.post_shutdown state.port)
      return .polling

/-- The clean-up of `stop`. -/
def clean_up (summary : Option Summary) : Task Phase := do
  act .clear_curlrc
  act .remove_system_trust
  act .remove_objects
  act (.remove_file .state_json)
  return .stopped (.cleaned summary)

/-- `stop` from the summary on. -/
def report (serde : Serde) : Task Phase := do
  match ← act (.read_to_string .summary_json) with
  | some contents =>
    match serde.summary_from_str contents with
    | none => return .stopped .unreadable_summary
    | some summary => clean_up (some summary)
  | none => clean_up none

/-- One round of the wait of `stop`, and the rest of it behind the last round. -/
def poll (serde : Serde) : Task Phase := do
  if ← act .past_deadline then report serde
  else if ← act (.exists_ .summary_json) then report serde
  else return .polling

/-! ### The machine -/

/-- The job's commands, one after the other, and the daemons they spawned. -/
inductive Process where
  | job
  | daemon (number : Nat)
  deriving DecidableEq

/-- What the commands share: the files, the directory of the objects, the changes to the machine,
how many daemons were spawned, and for each of them whether it has begun, was asked to shut down,
has written its file, has flushed (with which summary), has written that, has exited, and whether
`stop` has removed the objects since it was spawned. -/
structure Host where
  content : File → Option String
  objects : Bool
  curlrc : Bool
  trust : Bool
  spawned : Nat
  begun : Finset Nat
  requested : Finset Nat
  announced : Finset Nat
  flushed : Nat → Option Summary
  reported : Finset Nat
  exited : Finset Nat
  removed : Finset Nat

/-- What the environment decides. -/
inductive Choice where
  | quiet
  | done (ok : Bool)
  | passed (late : Bool)
  | state (state : Option State)
  | interrupted
  | summary (summary : Summary)
  | reached (daemon : Option Nat)
  deriving DecidableEq

namespace Host

/-- The daemon that was spawned last. -/
def current (host : Host) : Nat := host.spawned - 1

def setFile (host : Host) (file : File) (content : Option String) : Host :=
  { host with content := Function.update host.content file content }

/-- What a daemon has achieved by writing a file. -/
def wrote (host : Host) (number : Nat) : File → Host
  | .state_json => { host with announced := insert number host.announced }
  | .summary_json => { host with reported := insert number host.reported }

/-- One action of a process under a choice of the environment. -/
def exec (id : Process) (action : Act) (choice : Choice) (host : Host) :
    Option (Answer action × Host) :=
  match action with
  | .exists_ file => some ((host.content file).isSome, host)
  | .read_to_string file => some (host.content file, host)
  | .create file =>
      match choice with
      | .done true => some (true, host.setFile file (some ""))
      | .done false => some (false, host)
      | _ => none
  | .write file contents =>
      match id, choice with
      | .daemon number, .done true =>
          some (true, (host.setFile file (some contents)).wrote number file)
      | .daemon _, .done false => some (false, host)
      | _, _ => none
  | .remove_file file =>
      match choice with
      | .done true => some ((), host.setFile file none)
      | .done false => some ((), host)
      | _ => none
  | .create_objects =>
      match choice with
      | .done true => some (true, { host with objects := true })
      | .done false => some (false, host)
      | _ => none
  | .remove_objects =>
      match choice with
      | .done ok => some ((),
          { host with objects := !ok && host.objects, removed := insert host.current host.removed })
      | _ => none
  | .spawn =>
      match choice with
      | .done true => some (true, { host with spawned := host.spawned + 1 })
      | .done false => some (false, host)
      | _ => none
  | .past_deadline =>
      match choice with
      | .passed late => some (late, host)
      | _ => none
  | .write_curlrc =>
      match choice with
      | .done ok => some ((), { host with curlrc := ok || host.curlrc })
      | _ => none
  | .clear_curlrc => some ((), { host with curlrc := false })
  | .install_system_trust =>
      match choice with
      | .done ok => some ((), { host with trust := ok || host.trust })
      | _ => none
  | .remove_system_trust =>
      match choice with
      | .done ok => some ((), { host with trust := !ok && host.trust })
      | _ => none
  | .set_up =>
      match choice with
      | .state state => some (state, host)
      | _ => none
  | .serve =>
      match id, choice with
      | .daemon number, .quiet => if number ∈ host.requested then some (true, host) else none
      | _, .interrupted => some (true, host)
      | _, .done false => some (false, host)
      | _, _ => none
  | .flush =>
      match id, choice with
      | .daemon number, .summary summary =>
          some (summary,
            { host with flushed := Function.update host.flushed number (some summary) })
      | _, _ => none
  | .exit =>
      match id with
      | .daemon number => some ((), { host with exited := insert number host.exited })
      | .job => none
  | .post_shutdown _ =>
      match choice with
      | .reached (some daemon) => some ((), { host with requested := insert daemon host.requested })
      | .reached none => some ((), host)
      | _ => none

end Host

/-- The job goes on with the next command, also where a `start` failed, or with the next round of
a wait. -/
def again (serde : Serde) (id : Process) (phase : Phase) : Option (Task Phase) :=
  match id, phase with
  | .job, .waiting => some (wait_for_state serde)
  | .job, .started => some (stop serde)
  | .job, .failed => some (stop serde)
  | .job, .polling => some (poll serde)
  | .job, .stopped _ => some start
  | _, _ => none

/-- A daemon begins to run some time after it was spawned. -/
def accept (serde : Serde) (id : Process) (_ : Unit) (host : Host) :
    Option (Task Phase × Host) :=
  match id with
  | .daemon number =>
      if number < host.spawned ∧ number ∉ host.begun then
        some (run serde, { host with begun := insert number host.begun })
      else none
  | .job => none

/-- The commands over one state directory. -/
def machine (serde : Serde) : Machine Act Answer Process Host Choice Unit Phase where
  exec := Host.exec
  again := again serde
  accept := accept serde

/-- A machine on which nothing was started, but which may hold an old summary. -/
def Host.fresh (summary : Option String) : Host where
  content file := match file with
    | .state_json => none
    | .summary_json => summary
  objects := false
  curlrc := false
  trust := false
  spawned := 0
  begun := ∅
  requested := ∅
  announced := ∅
  flushed _ := none
  reported := ∅
  exited := ∅
  removed := ∅

/-- The job before its first `start`. -/
def idle (summary : Option String) : Config Act Answer Process Host Phase where
  shared := .fresh summary
  tasks id := match id with
    | .job => some start
    | .daemon _ => none

end Command

end Cicache
