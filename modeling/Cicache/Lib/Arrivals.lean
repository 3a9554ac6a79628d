/-
This file is about machines that start without a task. Whatever a task has performed in a run goes
back to its arrival, and there is one arrival at most under each name.
-/

import Cicache.Lib.History

namespace Interleaving

namespace Machine

variable {Act : Type} {Answer : Act → Type} {Id State Choice Arrival Value : Type} [DecidableEq Id]
variable {machine : Machine Act Answer Id State Choice Arrival Value}
variable {start after : Config Act Answer Id State Value} {events : List (Event Id Choice Arrival)}

/-- The task came with this arrival, and what it performed is a path from where it started. -/
structure Came (machine : Machine Act Answer Id State Choice Arrival Value)
    (start : Config Act Answer Id State Value) (events : List (Event Id Choice Arrival))
    (after : Config Act Answer Id State Value) (id : Id) (arrival : Arrival)
    (rest : Program Act Answer Value) : Prop where
  arrived : .arrive id arrival ∈ events
  task : after.tasks id = some rest
  takes : ∃ now program shared, machine.accept id arrival now = some (program, shared) ∧
    program.Takes (pathOf id (machine.history start events)) rest

/-- A task that was not there at first has come, or there is none and nothing was performed. -/
theorem came_or (ran : machine.run start events = some after) {id : Id}
    (once : ∀ value, machine.again id value = none) (free : start.tasks id = none) :
    (after.tasks id = none ∧ ∀ done, (id, done) ∉ machine.history start events) ∨
      ∃ arrival rest, machine.Came start events after id arrival rest := by
  rcases arrived_or ran once free with ⟨none, nothing, -⟩ |
    ⟨front, arrival, back, config, program, shared, rfl, -, accepted, rest, task, takes⟩
  · refine Or.inl ⟨none, fun done member => ?_⟩
    rw [← mem_pathOf, nothing] at member
    cases member
  · exact Or.inr ⟨arrival, rest, List.mem_append_right _ List.mem_cons_self, task,
      config.shared, program, shared, accepted, takes⟩

/-- Whose arrival is among the events has come with it. -/
theorem came_of_mem (ran : machine.run start events = some after) {id : Id}
    (once : ∀ value, machine.again id value = none) {arrival : Arrival}
    (member : .arrive id arrival ∈ events) :
    ∃ rest, machine.Came start events after id arrival rest := by
  rcases arrived_or ran once (free_of_arrives ran member) with ⟨-, -, absent⟩ |
    ⟨front, other, back, config, program, shared, parts, -, accepted, rest, task, takes⟩
  · exact absurd member (absent arrival)
  · have also : .arrive id other ∈ events := by
      rw [parts]
      exact List.mem_append_right _ List.mem_cons_self
    obtain rfl := arrive_unique ran also member
    exact ⟨rest, also, task, config.shared, program, shared, accepted, takes⟩

/-- The arrivals of a run, by the names of the tasks. -/
theorem exists_arrivals (ran : machine.run start events = some after) :
    ∃ arrivals : Id → Option Arrival, ∀ id arrival, .arrive id arrival ∈ events →
      arrivals id = some arrival := by
  have each : ∀ id, ∃ made : Option Arrival, ∀ arrival, .arrive id arrival ∈ events →
      made = some arrival := by
    intro id
    by_cases came : ∃ arrival, .arrive id arrival ∈ events
    · obtain ⟨arrival, came⟩ := came
      exact ⟨some arrival, fun other again => congrArg some (arrive_unique ran came again)⟩
    · exact ⟨none, fun arrival member => absurd ⟨arrival, member⟩ came⟩
  choose arrivals isArrival using each
  exact ⟨arrivals, isArrival⟩

end Machine

end Interleaving
