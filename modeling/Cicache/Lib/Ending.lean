/-
This file is about systems that come to an end. A program is a tree without infinite branches, so an
action takes a task nearer to its end, and finitely many tasks that nobody joins end after finitely
many steps, however many of them the answers make.

`Inevitable` says more than that every run ends: as long as the goal is not reached there is a way
to go on, and every way to go on leads to the goal. Its rule asks for an invariant, for an order
that every step descends in, and for a way to go on wherever the goal is not reached. The same order
leaves no `Endless` run, before the goal or behind it.
-/

import Cicache.Lib.Machine
import Mathlib.Data.DFinsupp.WellFounded
import Mathlib.SetTheory.Ordinal.Basic

namespace Interleaving

/-! ### Tasks on their way -/

section Tasks

variable {Act : Type} {Answer : Act → Type} {Id Value : Type}

/-- Nearer to the end by one step: a task is one action further, or has arrived. -/
inductive Nearer : Option (Program Act Answer Value) → Option (Program Act Answer Value) →
    Prop where
  | acted {action : Act} {next : Answer action → Program Act Answer Value}
    (answer : Answer action) :
      Nearer (some (next answer)) (some (.perform action next))
  | arrived (program : Program Act Answer Value) : Nearer (some program) none

theorem nearer_wellFounded : WellFounded (@Nearer Act Answer Value) := by
  have present : ∀ program : Program Act Answer Value, Acc Nearer (some program) := by
    intro program
    induction program with
    | finish value => exact ⟨_, by rintro _ ⟨⟩⟩
    | perform action next inductionHypothesis =>
      refine ⟨_, ?_⟩
      rintro _ ⟨answer⟩
      exact inductionHypothesis answer
  refine ⟨fun task => ?_⟩
  cases task with
  | some program => exact present program
  | none =>
    refine ⟨_, ?_⟩
    rintro _ (_ | ⟨program⟩)
    exact present program

variable {Part : Type}

/-- One of the tasks comes nearer to its end, and the others stand. -/
def Advances (after before : Part → Option (Program Act Answer Value)) : Prop :=
  ∃ part, Nearer (after part) (before part) ∧ ∀ other, other ≠ part → after other = before other

/-- Finitely many tasks advance finitely often. -/
theorem advances_wellFounded [Finite Part] : WellFounded (@Advances Act Answer Value Part) := by
  have lexicographic : WellFounded
      (Pi.Lex (@WellOrderingRel Part) fun {_} => @Nearer Act Answer Value) :=
    Pi.Lex.wellFounded _ fun _ => nearer_wellFounded
  refine Subrelation.wf ?_ lexicographic
  rintro after before ⟨part, nearer, stand⟩
  refine ⟨part, fun other earlier => stand other ?_, nearer⟩
  rintro rfl
  exact irrefl_of WellOrderingRel _ earlier

/-- A task that moves, seen as the part of them that counts it. -/
theorem Advances.update [DecidableEq Id] {name : Part → Id} (distinct : Function.Injective name)
    {tasks : Id → Option (Program Act Answer Value)} (part : Part)
    {program : Program Act Answer Value} (nearer : Nearer (some program) (tasks (name part))) :
    Advances (fun other => Function.update tasks (name part) (some program) (name other))
      fun other => tasks (name other) := by
  refine ⟨part, ?_, fun other different => Function.update_of_ne (distinct.ne different) ..⟩
  show Nearer (Function.update tasks (name part) (some program) (name part)) (tasks (name part))
  rwa [Function.update_self]

/-- Orders of the fibres of a function make an order of the whole. -/
theorem fibre_wellFounded {Whole Base : Type} {base : Whole → Base}
    {less : Base → Whole → Whole → Prop} (founded : ∀ point, WellFounded (less point)) :
    WellFounded fun after before => base after = base before ∧ less (base before) after before := by
  have accessible : ∀ point whole, base whole = point →
      Acc (fun after before => base after = base before ∧ less (base before) after before)
        whole := by
    intro point whole
    induction whole using (founded point).induction with
    | _ whole inductionHypothesis =>
      rintro rfl
      exact ⟨_, fun after ⟨same, lower⟩ => inductionHypothesis after lower same⟩
  exact ⟨fun whole => accessible _ whole rfl⟩

end Tasks

/-! ### What is bound to happen -/

namespace Machine

variable {Act : Type} {Answer : Act → Type} {Id State Choice Arrival Value : Type}
variable [DecidableEq Id]

/-- However the system goes on by these events it comes to the goal, and until then it can go on. -/
inductive Inevitable (machine : Machine Act Answer Id State Choice Arrival Value)
    (among : Event Id Choice Arrival → Prop) (goal : Config Act Answer Id State Value → Prop) :
    Config Act Answer Id State Value → Prop where
  | now {config} (reached : goal config) : Inevitable machine among goal config
  | later {config}
      (able : ∃ event after, among event ∧ machine.step config event = some after)
      (bound : ∀ event after, among event → machine.step config event = some after →
        Inevitable machine among goal after) : Inevitable machine among goal config

variable {machine : Machine Act Answer Id State Choice Arrival Value}
variable {among : Event Id Choice Arrival → Prop} {goal : Config Act Answer Id State Value → Prop}

/-- A goal is inevitable where every step keeps an invariant and descends, and where the invariant
leaves a way to go on. -/
theorem Inevitable.of_descends {less : Config Act Answer Id State Value →
      Config Act Answer Id State Value → Prop} (founded : WellFounded less)
    (kept : Config Act Answer Id State Value → Prop)
    (descends : ∀ before event after, kept before → among event →
      machine.Stepped before event after → kept after ∧ less after before)
    (able : ∀ config, kept config → ¬ goal config →
      ∃ event after, among event ∧ machine.step config event = some after)
    {config : Config Act Answer Id State Value} (holds : kept config) :
    machine.Inevitable among goal config := by
  induction config using founded.induction with
  | _ config inductionHypothesis =>
    by_cases reached : goal config
    · exact .now reached
    · refine .later (able config holds reached) fun event after permitted stepped => ?_
      obtain ⟨still, nearer⟩ := descends config event after holds permitted
        ((step_eq_some_iff ..).mp stepped)
      exact inductionHypothesis after nearer still

/-- From here the system can go on by these events for ever. -/
def Endless (machine : Machine Act Answer Id State Choice Arrival Value)
    (among : Event Id Choice Arrival → Prop) (config : Config Act Answer Id State Value) : Prop :=
  ∃ states : Nat → Config Act Answer Id State Value, states 0 = config ∧
    ∀ time, ∃ event, among event ∧ machine.step (states time) event = some (states (time + 1))

/-- Where every step keeps an invariant and descends, nothing goes on for ever. -/
theorem not_endless_of_descends {less : Config Act Answer Id State Value →
      Config Act Answer Id State Value → Prop} (founded : WellFounded less)
    (kept : Config Act Answer Id State Value → Prop)
    (descends : ∀ before event after, kept before → among event →
      machine.Stepped before event after → kept after ∧ less after before)
    {config : Config Act Answer Id State Value} (holds : kept config) :
    ¬ machine.Endless among config := by
  rintro ⟨states, begins, goesOn⟩
  have stepped : ∀ time, kept (states time) →
      kept (states (time + 1)) ∧ less (states (time + 1)) (states time) := by
    intro time here
    obtain ⟨event, permitted, stepped⟩ := goesOn time
    exact descends _ event _ here permitted ((step_eq_some_iff ..).mp stepped)
  have always : ∀ time, kept (states time) := by
    intro time
    induction time with
    | zero => exact begins ▸ holds
    | succ time inductionHypothesis => exact (stepped time inductionHypothesis).1
  exact (wellFounded_iff_isEmpty_descending_chain.mp founded).false
    ⟨states, fun time => (stepped time (always time)).2⟩

end Machine

end Interleaving
