/-
This file models the rest of `run`: the listener that hands connections to the proxy until the job
is told to stop, and the flush that follows. The shutdown endpoint of the proxy sets a flag, and the
`select!` in `run` is what reads it. Requests arrive on connections that were accepted, and go on
arriving on these while the flush is under way; new connections are accepted no more.
-/

import Cicache.Growth

namespace Cicache

open Interleaving

/-- Where `run` is, once the manifest and the pack are loaded. -/
inductive Attending where
  /-- In the `select!` over the listener, the interrupt and the shutdown channel. -/
  | listening
  /-- In `flush`, which is this call. -/
  | flushing (number : Nat)
  /-- `run` has returned, and the process with it. -/
  | returned
  deriving DecidableEq

/-- The job, the connections its listener has accepted, and where `run` is. -/
structure Listener where
  job : Config Act Answer TaskId World Value
  connections : List Nat
  attending : Attending

/-- What may happen next. -/
inductive Happening where
  /-- The listener accepts a connection. -/
  | accept (connection : Nat)
  /-- The listener fails, and `run` with it. -/
  | broken
  /-- A request arrives on a connection, or inside the tunnel behind one. -/
  | request (connection number : Nat) (request : ClientRequest) (tunnel_authority : Option String)
  /-- The `select!` ends, interrupted or because the shutdown flag is set, and `flush` begins. -/
  | stops (interrupted : Bool) (number : Nat)
  /-- `flush` has ended, and `run` writes its summary. -/
  | returns
  /-- A task of the job moves on, or one that was spawned begins. -/
  | moves (event : Event TaskId Choice Arrival)

/-- What `run` does before it listens: it asks for the manifest and the pack, and waits for both. -/
structure Started (crates : Crates) (proxy : Proxy) (service : Service) (built : List Built)
    (loading : List (Event TaskId Choice Arrival))
    (start : Config Act Answer TaskId World Value) : Prop where
  loads : ∀ id arrival, .arrive id arrival ∈ loading →
    arrival = .load_index ∨ arrival = .load_pack
  ended : ∀ id arrival, .arrive id arrival ∈ loading →
    ∃ value, start.tasks id = some (.finish value)
  ran : (Job.machine crates proxy).run (Job.idle proxy (Job.fresh proxy service built)) loading =
    some start

namespace Listener

/-- The events that are no call of a client or of `run`. -/
def spawned : Event TaskId Choice Arrival → Bool
  | .run _ _ => true
  | .arrive _ .tunnel => true
  | .arrive _ .upload => true
  | .arrive _ _ => false

/-- What a happening is in the job. -/
def jobEvent : Happening → Option (Event TaskId Choice Arrival)
  | .request _ number request tunnel_authority =>
      some (.arrive (.call number) (.request request tunnel_authority))
  | .stops _ number => some (.arrive (.call number) .flush)
  | .moves event => some event
  | _ => none

/-- Where `run` is afterwards. -/
def attend (attending : Attending) : Happening → Attending
  | .stops _ number => .flushing number
  | .broken => .returned
  | .returns => .returned
  | _ => attending

variable (crates : Crates) (proxy : Proxy)

/-- Whether a happening is possible, apart from what the job says to it. -/
def possible (listener : Listener) : Happening → Bool
  | .accept connection =>
      listener.attending = .listening && !listener.connections.contains connection
  | .broken => listener.attending = .listening
  | .request connection _ _ _ =>
      listener.attending ≠ .returned && listener.connections.contains connection
  | .stops interrupted _ =>
      listener.attending = .listening && (interrupted || listener.job.shared.flags .shutdown)
  | .returns =>
      match listener.attending with
      | .flushing number =>
          match listener.job.tasks (.call number) with
          | some (.finish _) => true
          | _ => false
      | _ => false
  | .moves event => listener.attending ≠ .returned && spawned event

/-- The connections after a happening. -/
def accepted (connections : List Nat) : Happening → List Nat
  | .accept connection => connection :: connections
  | _ => connections

def step (listener : Listener) (happening : Happening) : Option Listener :=
  if listener.possible happening then
    ((Job.machine crates proxy).run listener.job (jobEvent happening).toList).map fun job =>
      ⟨job, accepted listener.connections happening, attend listener.attending happening⟩
  else none

def run (listener : Listener) : List Happening → Option Listener
  | [] => some listener
  | happening :: rest => (listener.step crates proxy happening).bind fun next => next.run rest

/-- The events of the job in a list of happenings. -/
def events (happenings : List Happening) : List (Event TaskId Choice Arrival) :=
  happenings.filterMap jobEvent

variable {crates : Crates} {proxy : Proxy}

theorem step_eq {listener after : Listener} {happening : Happening}
    (stepped : listener.step crates proxy happening = some after) :
    listener.possible happening = true ∧
      (Job.machine crates proxy).run listener.job (jobEvent happening).toList = some after.job ∧
      after.connections = accepted listener.connections happening ∧
      after.attending = attend listener.attending happening := by
  unfold step at stepped
  split at stepped
  · rename_i possible
    obtain ⟨job, ran, rfl⟩ := Option.map_eq_some_iff.mp stepped
    exact ⟨possible, ran, rfl, rfl⟩
  · cases stepped

/-- A run of the listener is a run of its job. -/
theorem run_job {listener after : Listener} {happenings : List Happening}
    (ran : listener.run crates proxy happenings = some after) :
    (Job.machine crates proxy).run listener.job (events happenings) = some after.job := by
  induction happenings generalizing listener with
  | nil =>
    cases ran
    rfl
  | cons happening rest inductionHypothesis =>
    obtain ⟨next, stepped, ran⟩ := Option.bind_eq_some_iff.mp ran
    have split : events (happening :: rest) = (jobEvent happening).toList ++ events rest := by
      unfold events
      rw [List.filterMap_cons]
      cases jobEvent happening with
      | none => rfl
      | some event => rfl
    rw [split, Machine.run_append, (step_eq stepped).2.1, Option.bind_some]
    exact inductionHypothesis ran

/-- Where `run` is follows from what has happened. -/
theorem run_attending {listener after : Listener} {happenings : List Happening}
    (ran : listener.run crates proxy happenings = some after) :
    after.attending = happenings.foldl attend listener.attending := by
  induction happenings generalizing listener with
  | nil =>
    cases ran
    rfl
  | cons happening rest inductionHypothesis =>
    obtain ⟨next, stepped, ran⟩ := Option.bind_eq_some_iff.mp ran
    rw [List.foldl_cons, ← (step_eq stepped).2.2.2]
    exact inductionHypothesis ran

/-- Once it has stopped, the listener accepts no connection and `run` begins no other flush. -/
theorem stopped_of_run {listener after : Listener} {happenings : List Happening}
    (ran : listener.run crates proxy happenings = some after)
    (stopped : listener.attending ≠ .listening) :
    after.attending ≠ .listening ∧ after.connections = listener.connections ∧
      ∀ id, .arrive id .flush ∉ events happenings := by
  induction happenings generalizing listener with
  | nil =>
    cases ran
    exact ⟨stopped, rfl, fun _ => List.not_mem_nil⟩
  | cons happening rest inductionHypothesis =>
    obtain ⟨next, stepped, ran⟩ := Option.bind_eq_some_iff.mp ran
    obtain ⟨possible, _, connections, attending⟩ := step_eq stepped
    have still : next.attending ≠ .listening ∧ next.connections = listener.connections ∧
        ∀ id, jobEvent happening ≠ some (.arrive id .flush) := by
      rw [attending, connections]
      cases happening with
      | accept connection => simp [Listener.possible, stopped] at possible
      | broken => simp [Listener.possible, stopped] at possible
      | request => exact ⟨stopped, rfl, fun _ same => by cases same⟩
      | stops => simp [Listener.possible, stopped] at possible
      | returns => exact ⟨by simp [attend], rfl, fun _ same => by cases same⟩
      | moves event =>
        refine ⟨stopped, rfl, fun id same => ?_⟩
        cases same
        simp [Listener.possible, spawned] at possible
    obtain ⟨ends, same, noFlush⟩ := inductionHypothesis ran still.1
    refine ⟨ends, same.trans still.2.1, fun id member => ?_⟩
    obtain ⟨one, inside, isFlush⟩ := List.mem_filterMap.mp member
    rcases List.mem_cons.mp inside with rfl | later
    · exact still.2.2 id isFlush
    · exact noFlush id (List.mem_filterMap.mpr ⟨one, later, isFlush⟩)

/-- `run` leaves the `select!` only when the listener failed, when it was interrupted, or when it
was told to stop through the proxy. -/
theorem told_of_run {listener after : Listener} {happenings : List Happening}
    (ran : listener.run crates proxy happenings = some after)
    (was : listener.attending = .listening) (left : after.attending ≠ .listening) :
    .broken ∈ happenings ∨ (∃ number, .stops true number ∈ happenings) ∨
      after.job.shared.flags .shutdown = true := by
  induction happenings generalizing listener with
  | nil =>
    cases ran
    exact absurd was left
  | cons happening rest inductionHypothesis =>
    obtain ⟨next, stepped, later⟩ := Option.bind_eq_some_iff.mp ran
    obtain ⟨possible, moved, _, attending⟩ := step_eq stepped
    by_cases still : next.attending = .listening
    · rcases inductionHypothesis later still with broken | ⟨number, interrupted⟩ | told
      · exact Or.inl (List.mem_cons_of_mem _ broken)
      · exact Or.inr (Or.inl ⟨number, List.mem_cons_of_mem _ interrupted⟩)
      · exact Or.inr (Or.inr told)
    · rw [attending, was] at still
      cases happening with
      | broken => exact Or.inl List.mem_cons_self
      | stops interrupted number =>
        cases interrupted with
        | true => exact Or.inr (Or.inl ⟨number, List.mem_cons_self⟩)
        | false =>
          have told : listener.job.shared.flags .shutdown = true := by
            simpa [Listener.possible, was] using possible
          have toldAfter := (run_grows (run_job later)).flags _ ((run_grows moved).flags _ told)
          exact Or.inr (Or.inr toldAfter)
      | returns => simp [Listener.possible, was] at possible
      | accept => exact absurd rfl still
      | request => exact absurd rfl still
      | moves => exact absurd rfl still

end Listener

end Cicache
