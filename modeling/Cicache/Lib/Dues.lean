/-
This file is about sums that tasks build up together. Every action is worth some amount to the
shared state, and a program `Pays` an amount when its actions, all of them allowed ones, are worth
that much in total, whatever it is answered. However the tasks are interleaved, what the state holds
and what the tasks still have to pay is together what it held at first and what those that arrived
pay in full.
-/

import Cicache.Lib.Machine
import Mathlib.Algebra.BigOperators.Group.Finset.Piecewise
import Mathlib.Tactic.Abel

namespace Interleaving

variable {Act : Type} {Answer : Act → Type} {Value Result Amount : Type} [AddCommMonoid Amount]

namespace Program

/-- Whatever the answers, the program's actions are allowed and worth this amount in total. -/
def Pays (allowed : Act → Prop) (worth : Act → Amount) : Program Act Answer Value → Amount → Prop
  | .finish _, amount => amount = 0
  | .perform action next, amount => allowed action ∧
      ∃ rest, amount = worth action + rest ∧ ∀ answer, (next answer).Pays allowed worth rest

variable {allowed : Act → Prop} {worth : Act → Amount}

theorem Pays.bind {program : Program Act Answer Value} {next : Value → Program Act Answer Result}
    {first second : Amount} (begins : program.Pays allowed worth first)
    (goesOn : ∀ value, (next value).Pays allowed worth second) :
    (program >>= next).Pays allowed worth (first + second) := by
  induction program generalizing first with
  | finish value =>
    have none : first = 0 := begins
    rw [none, zero_add]
    exact goesOn value
  | perform action continuation inductionHypothesis =>
    obtain ⟨permitted, rest, rfl, pays⟩ := begins
    exact ⟨permitted, rest + second, add_assoc .., fun answer =>
      inductionHypothesis answer (pays answer)⟩

/-- A program of worthless actions pays nothing. -/
theorem Pays.of_within {program : Program Act Answer Value}
    (within : program.Within fun action => allowed action ∧ worth action = 0) :
    program.Pays allowed worth 0 := by
  induction program with
  | finish value => rfl
  | perform action next inductionHypothesis =>
    refine ⟨within.1.1, 0, ?_, fun answer => inductionHypothesis answer (within.2 answer)⟩
    rw [within.1.2, zero_add]

end Program

/-- The task an event is about. -/
def Event.task {Id Choice Arrival : Type} : Event Id Choice Arrival → Id
  | .run id _ => id
  | .arrive id _ => id

namespace Machine

variable {Id State Choice Arrival : Type} [DecidableEq Id]
variable {machine : Machine Act Answer Id State Choice Arrival Value}
variable {start after : Config Act Answer Id State Value} {events : List (Event Id Choice Arrival)}

/-- The tasks still have to pay this much each. -/
structure Indebted (allowed : Act → Prop) (worth : Act → Amount) (due : Id → Amount)
    (config : Config Act Answer Id State Value) : Prop where
  tasks : ∀ id program, config.tasks id = some program → program.Pays allowed worth (due id)
  absent : ∀ id, config.tasks id = none → due id = 0

theorem Indebted.update {allowed : Act → Prop} {worth : Act → Amount} {due : Id → Amount}
    {config : Config Act Answer Id State Value} (indebted : Indebted allowed worth due config)
    {id : Id} {program : Program Act Answer Value} {rest : Amount} (shared : State)
    (pays : program.Pays allowed worth rest) :
    Indebted allowed worth (Function.update due id rest)
      ⟨shared, Function.update config.tasks id (some program)⟩ := by
  constructor
  · intro other task found
    by_cases same : other = id
    · subst same
      simp only [Function.update_self, Option.some_inj] at found ⊢
      exact found ▸ pays
    · simp only [Function.update_of_ne same] at found ⊢
      exact indebted.tasks other task found
  · intro other none
    by_cases same : other = id
    · subst same
      simp only [Function.update_self, reduceCtorEq] at none
    · simp only [Function.update_of_ne same] at none ⊢
      exact indebted.absent other none

/-- What the events' arrivals pay in full. -/
def brought (brings : Arrival → Amount) : List (Event Id Choice Arrival) → Amount
  | [] => 0
  | .run _ _ :: rest => brought brings rest
  | .arrive _ arrival :: rest => brings arrival + brought brings rest

/-- Nothing gets lost between the tasks and the shared state. -/
theorem paid_of_run {allowed : Act → Prop} {worth : Act → Amount} {held : State → Amount}
    {brings : Arrival → Amount} (ran : machine.run start events = some after)
    (acts : ∀ id action choice before answer shared, allowed action →
      machine.exec id action choice before = some (answer, shared) →
        held shared = held before + worth action)
    (once : ∀ id value, machine.again id value = none)
    (arrives : ∀ id arrival before program shared,
      machine.accept id arrival before = some (program, shared) →
        held shared = held before ∧ program.Pays allowed worth (brings arrival))
    {ids : Finset Id} (all : ∀ event ∈ events, event.task ∈ ids) {due : Id → Amount}
    (indebted : Indebted allowed worth due start) :
    ∃ later : Id → Amount, Indebted allowed worth later after ∧
      held after.shared + ∑ id ∈ ids, later id =
        held start.shared + ∑ id ∈ ids, due id + brought brings events := by
  induction events generalizing start due with
  | nil =>
    cases ran
    exact ⟨due, indebted, (add_zero _).symm⟩
  | cons event others inductionHypothesis =>
    obtain ⟨next, stepped, ran⟩ := Option.bind_eq_some_iff.mp ran
    have member := all event List.mem_cons_self
    have goesOn := fun due (indebted : Indebted allowed worth due next) =>
      inductionHypothesis ran (fun other there => all other (List.mem_cons_of_mem _ there)) indebted
    cases (step_eq_some_iff ..).mp stepped with
    | @acted id choice action continuation answer shared task result =>
      have member : id ∈ ids := member
      obtain ⟨permitted, rest, owed, pays⟩ := indebted.tasks id _ task
      obtain ⟨later, still, total⟩ := goesOn _ (indebted.update shared (pays answer))
      refine ⟨later, still, ?_⟩
      rw [total, brought, acts _ _ _ _ _ _ permitted result, Finset.sum_update_of_mem member,
        Finset.sum_eq_add_sum_sdiff_singleton_of_mem member due, owed]
      abel
    | looped task result =>
      rw [once] at result
      cases result
    | @arrived id arrival program shared free result =>
      have member : id ∈ ids := member
      obtain ⟨same, pays⟩ := arrives _ _ _ _ _ result
      obtain ⟨later, still, total⟩ := goesOn _ (indebted.update shared pays)
      refine ⟨later, still, ?_⟩
      rw [total, brought, same, Finset.sum_update_of_mem member,
        Finset.sum_eq_add_sum_sdiff_singleton_of_mem member due, indebted.absent id free]
      abel

end Machine

end Interleaving
