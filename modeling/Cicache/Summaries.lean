/-
This file shows that a summary taken while nothing is recorded tells every counter, also when other
summaries are taken at the same time, load by load.
-/

import Cicache.Log

namespace Cicache

open Text Interleaving

namespace Stats

section Summarised

/-- What a program comes to when its actions are answered like this. -/
def answered {Result : Type} (oracle : (action : Act) → Answer action) : Task Result → Result
  | .finish value => value
  | .perform action next => answered oracle (next (oracle action))

theorem eq_answered {Result : Type} {oracle : (action : Act) → Answer action}
    {program : Task Result}
    {path : List (Done Act Answer)} {value : Result} (finishes : program.Finishes path value)
    (answers : ∀ done ∈ path, done.answer = oracle done.action) :
    value = answered oracle program := by
  induction program generalizing path with
  | finish result => exact ((Program.finishes_finish ..).mp finishes).2.symm
  | perform action next inductionHypothesis =>
    obtain ⟨answer, rest, rfl, later⟩ := (Program.finishes_perform ..).mp finishes
    obtain rfl : answer = oracle action := answers _ List.mem_cons_self
    exact inductionHypothesis _ later fun done member =>
      answers done (List.mem_cons_of_mem _ member)

/-- The answers of counters that stand still. -/
def standing (counters : Counter → UInt64) : (action : Act) → Answer action
  | .load counter => counters counter
  | .fetch_add _ _ => ()
  | .store _ _ => ()
  | .lock => false
  | .write _ => none
  | .unlock => ()

theorem get_standing (human_bytes : UInt64 → String) (counters : Counter → UInt64) :
    ∃ summary, answered (standing counters) (program human_bytes .summary) = some summary ∧
      ∀ counter, get summary counter = (counters counter).toNat := by
  refine ⟨_, rfl, fun counter => ?_⟩
  cases counter <;> rfl

variable {human_bytes : UInt64 → String} {middle after : Config Act Answer Nat Stats Value}
variable {back : List (Event Nat Choice Call)}

/-- Where all calls have returned and only summaries are asked for, all that happens is loads. -/
theorem loads_of_summaries (ran : (machine human_bytes).run middle back = some after)
    (returned : ∀ id program, middle.tasks id = some program → ∃ value, program = .finish value)
    (only : ∀ id call, .arrive id call ∈ back → call = .summary) {id : Nat} {done : Done Act Answer}
    (member : (id, done) ∈ (machine human_bytes).history middle back) :
    ∃ counter, done.action = .load counter := by
  have member := mem_pathOf.mpr member
  cases task : middle.tasks id with
  | some program =>
    obtain ⟨value, rfl⟩ := returned id program task
    obtain ⟨rest, -, takes⟩ := Machine.takes_pathOf ran (fun _ => rfl) task
    generalize pathOf id ((machine human_bytes).history middle back) = path at member takes
    cases takes
    cases member
  | none =>
    rcases Machine.came_or ran (fun _ => rfl) task with ⟨-, nothing⟩ | ⟨call, rest, came⟩
    · exact absurd (mem_pathOf.mp member) (nothing done)
    · obtain rfl := only id call came.arrived
      obtain ⟨_, _, _, ⟨⟩, takes⟩ := came.takes
      have within : (program human_bytes .summary).Within fun action =>
          ∃ counter, action = .load counter :=
        (summary_within fun counter => ⟨counter, rfl⟩).bind fun _ => trivial
      exact takes.allowed within done member

/-- Whoever loads a counter then reads what it was at first. -/
theorem standing_of_loads (ran : (machine human_bytes).run middle back = some after)
    (loads : ∀ id done, (id, done) ∈ (machine human_bytes).history middle back →
      ∃ counter, done.action = .load counter) :
    ∀ entry ∈ (machine human_bytes).history middle back,
      entry.2.answer = standing middle.shared.counters entry.2.action := by
  have performing : (machine human_bytes).Performing
      (fun _ done => ∃ counter, done.action = .load counter) middle back := by
    rintro front event rest config id done rfl ranFront performed
    exact loads id done (Machine.mem_history ranFront ran performed)
  have kept := performing.preserves ran (fun past stats => stats.counters = middle.shared.counters ∧
    ∀ entry ∈ past, entry.2.answer = standing middle.shared.counters entry.2.action) ?_ ?_
    ⟨rfl, fun _ none => absurd none List.not_mem_nil⟩
  · exact kept.2
  · rintro past id action choice before answer shared ⟨same, kept⟩ ⟨counter, loads⟩ result
    obtain rfl : action = .load counter := loads
    cases result
    refine ⟨same, fun entry member => ?_⟩
    rcases List.mem_append.mp member with earlier | now
    · exact kept entry earlier
    · rw [List.mem_singleton.mp now]
      exact congrFun same counter
  · rintro past id call before _ _ kept ⟨⟩
    exact kept

/-- A summary that is asked for when all other calls have returned, at once with other summaries as
it may be, tells what the calls make of the counters when each is one atomic action. -/
theorem summary_tells (human_bytes : UInt64 → String) {log : Option Bytes}
    {front back : List (Event Nat Choice Call)} {middle after : Config Act Answer Nat Stats Value}
    (ranFront : (machine human_bytes).run (opened log) front = some middle)
    (returned : ∀ id program, middle.tasks id = some program → ∃ value, program = .finish value)
    (once : ∀ id other call also, .arrive id call ∈ front → .arrive other also ∈ front →
      call.packs = true → also.packs = true → id = other)
    (ran : (machine human_bytes).run middle back = some after)
    (only : ∀ id call, .arrive id call ∈ back → call = .summary) {id : Nat}
    (asked : .arrive id .summary ∈ back) {value : Value}
    (told : after.tasks id = some (.finish value)) :
    ∃ summary, value = some summary ∧ ∀ counter,
      get summary counter = get ((calls front).foldl Call.apply .default) counter % 2 ^ 64 := by
  obtain ⟨rest, came⟩ := Machine.came_of_mem ran (fun _ => rfl) asked
  obtain ⟨_, _, _, ⟨⟩, takes⟩ := came.takes
  rw [came.task, Option.some_inj] at told
  subst told
  have answers := standing_of_loads ran fun id done member => loads_of_summaries ran returned
    only member
  obtain ⟨summary, tells, reads⟩ := get_standing human_bytes middle.shared.counters
  refine ⟨summary, ?_, fun counter => ?_⟩
  · rw [← tells]
    exact eq_answered takes fun done member => answers (id, done) (mem_pathOf.mp member)
  · rw [reads]
    cases added : counter.added with
    | true => exact added_counted human_bytes added ranFront returned
    | false => exact stored_counted human_bytes added ranFront returned once

end Summarised

/-- An upload is recorded. -/
def uploadedEvents : List (Event Nat Choice Call) :=
  [.arrive 0 (.record_upload 3 true), .run 0 .quiet, .run 0 .quiet]

/-- Two summaries at once, load by load. -/
def summaryEvents : List (Event Nat Choice Call) :=
  .arrive 3 .summary :: .arrive 4 .summary ::
    (List.replicate 14 [.run 3 .quiet, .run 4 .quiet]).flatten

/-- The task is there, and it has returned. -/
def finished : Option (Task Value) → Bool
  | some (.finish _) => true
  | _ => false

theorem exists_finished {task : Option (Task Value)} (there : finished task = true) :
    ∃ value, task = some (.finish value) := by
  cases task with
  | none => cases there
  | some program =>
    cases program with
    | finish value => exact ⟨value, rfl⟩
    | perform action next => cases there

theorem summary_tells_uploaded : ∃ (middle after : Config Act Answer Nat Stats Value)
    (summary : Summary), (machine litBytes).run (opened none) uploadedEvents = some middle ∧
      (machine litBytes).run middle summaryEvents = some after ∧
      after.tasks 3 = some (.finish (some summary)) ∧
      ∀ counter, get summary counter =
        get ((calls uploadedEvents).foldl Call.apply .default) counter % 2 ^ 64 := by
  have arrivals : ∀ id call, .arrive id call ∈ uploadedEvents →
      id = 0 ∧ call = .record_upload 3 true := by
    intro id call arrived
    simpa [uploadedEvents] using arrived
  have only : ∀ id call, .arrive id call ∈ summaryEvents → call = .summary := by
    intro id call arrived
    have both : (id = 3 ∧ call = .summary) ∨ (id = 4 ∧ call = .summary) := by
      simpa [summaryEvents] using arrived
    exact both.elim And.right And.right
  obtain ⟨middle, ranFront, uploaded⟩ := (Option.any_eq_true _ _).mp
    (show ((machine litBytes).run (opened none) uploadedEvents).any
      (fun config => finished (config.tasks 0)) = true by decide +kernel)
  obtain ⟨whole, ranWhole, told⟩ := (Option.any_eq_true _ _).mp
    (show ((machine litBytes).run (opened none) (uploadedEvents ++ summaryEvents)).any
      (fun config => finished (config.tasks 3)) = true by decide +kernel)
  rw [Machine.run_append, ranFront, Option.bind_some] at ranWhole
  obtain ⟨value, told⟩ := exists_finished told
  have returned : ∀ id program, middle.tasks id = some program →
      ∃ value, program = .finish value := by
    intro id program task
    have free : (opened none).tasks id = none := rfl
    rcases Machine.came_or ranFront (fun _ => rfl) free with ⟨absent, -⟩ | ⟨call, rest, came⟩
    · rw [task] at absent
      cases absent
    · obtain ⟨rfl, -⟩ := arrivals id call came.arrived
      obtain ⟨value, there⟩ := exists_finished uploaded
      rw [task, Option.some_inj] at there
      exact ⟨value, there⟩
  have once : ∀ id other call also, .arrive id call ∈ uploadedEvents →
      .arrive other also ∈ uploadedEvents → call.packs = true → also.packs = true → id = other := by
    intro id other call also came again packs
    rw [(arrivals id call came).2] at packs
    cases packs
  obtain ⟨summary, rfl, tells⟩ :=
    summary_tells litBytes ranFront returned once ranWhole only List.mem_cons_self told
  exact ⟨middle, whole, summary, ranFront, ranWhole, told, tells⟩

end Stats

end Cicache
