/-
This file gives the tasks of a concurrent system one common shape: a program is a tree of
atomic actions, each followed by a continuation on the action's answer. What an action does
to the shared state is left open; it is a relation between the state before, the answer and
the state after.

Two readings of a program are developed here. `Runs` executes it alone, from start to finish,
and composes over `bind`. `Within` bounds the actions it can ever issue, whatever the answers,
and `MayPerform` says that some answers lead it to an action.
-/

import Mathlib.Logic.Basic

namespace Interleaving

/-! ### Programs -/

/-- A program over the atomic actions `Act`: it finishes with a value, or performs one action
and goes on with the answer. -/
inductive Program (Act : Type) (Answer : Act → Type) (Value : Type) : Type where
  | finish (value : Value)
  | perform (action : Act) (next : Answer action → Program Act Answer Value)

namespace Program

variable {Act : Type} {Answer : Act → Type} {Value Result Outcome State : Type}

/-- Sequencing: the continuation starts where the first program finishes. -/
def bind (program : Program Act Answer Value) (next : Value → Program Act Answer Result) :
    Program Act Answer Result :=
  match program with
  | .finish value => next value
  | .perform action rest => .perform action fun answer => (rest answer).bind next

instance : Monad (Program Act Answer) where
  pure := finish
  bind := bind

/-- The program that performs one action and returns its answer. -/
def act (action : Act) : Program Act Answer (Answer action) :=
  .perform action .finish

@[simp] theorem finish_bind (value : Value) (next : Value → Program Act Answer Result) :
    (finish value >>= next) = next value := rfl

@[simp] theorem pure_eq_finish (value : Value) :
    (pure value : Program Act Answer Value) = finish value := rfl

@[simp] theorem perform_bind (action : Act) (rest : Answer action → Program Act Answer Value)
    (next : Value → Program Act Answer Result) :
    (perform action rest >>= next) = perform action fun answer => rest answer >>= next := rfl

@[simp] theorem act_bind (action : Act) (next : Answer action → Program Act Answer Result) :
    (act action >>= next) = perform action next := rfl

theorem bind_assoc (program : Program Act Answer Value)
    (first : Value → Program Act Answer Result) (second : Result → Program Act Answer Outcome) :
    ((program >>= first) >>= second) = program >>= fun value => first value >>= second := by
  induction program with
  | finish value => rfl
  | perform action rest inductionHypothesis =>
    simp only [perform_bind, inductionHypothesis]

/-! ### The actions a program can issue -/

/-- Every action the program can issue, under any answers, is allowed. -/
def Within (allowed : Act → Prop) : Program Act Answer Value → Prop
  | .finish _ => True
  | .perform action next => allowed action ∧ ∀ answer, (next answer).Within allowed

@[simp] theorem within_finish {allowed : Act → Prop} (value : Value) :
    (finish value : Program Act Answer Value).Within allowed ↔ True := Iff.rfl

@[simp] theorem within_perform {allowed : Act → Prop} (action : Act)
    (next : Answer action → Program Act Answer Value) :
    (perform action next).Within allowed ↔
      allowed action ∧ ∀ answer, (next answer).Within allowed := Iff.rfl

theorem Within.bind {allowed : Act → Prop} {program : Program Act Answer Value}
    {next : Value → Program Act Answer Result} (first : program.Within allowed)
    (rest : ∀ value, (next value).Within allowed) : (program >>= next).Within allowed := by
  induction program with
  | finish value => exact rest value
  | perform action continuation inductionHypothesis =>
    exact ⟨first.1, fun answer => inductionHypothesis answer (first.2 answer)⟩

theorem Within.act {allowed : Act → Prop} {action : Act}
    {next : Answer action → Program Act Answer Value} (permitted : allowed action)
    (rest : ∀ answer, (next answer).Within allowed) :
    (Program.act action >>= next).Within allowed := ⟨permitted, rest⟩

theorem Within.mono {allowed wider : Act → Prop} {program : Program Act Answer Value}
    (within : program.Within allowed) (implies : ∀ action, allowed action → wider action) :
    program.Within wider := by
  induction program with
  | finish value => trivial
  | perform action continuation inductionHypothesis =>
    exact ⟨implies action within.1, fun answer => inductionHypothesis answer (within.2 answer)⟩

theorem Within.of_all {allowed : Act → Prop} (all : ∀ action, allowed action)
    (program : Program Act Answer Value) : program.Within allowed := by
  induction program with
  | finish value => trivial
  | perform action continuation inductionHypothesis => exact ⟨all action, inductionHypothesis⟩

/-- Under some answers the program comes to perform an action of the given kind. -/
def MayPerform (kind : Act → Prop) : Program Act Answer Value → Prop
  | .finish _ => False
  | .perform action next => kind action ∨ ∃ answer, (next answer).MayPerform kind

/-- Wrapping a program's result adds no action. -/
@[simp] theorem mayPerform_bind_finish {kind : Act → Prop} (program : Program Act Answer Value)
    (wrap : Value → Result) :
    (program >>= fun value => finish (wrap value)).MayPerform kind ↔ program.MayPerform kind := by
  induction program with
  | finish value => exact Iff.rfl
  | perform action continuation inductionHypothesis =>
    simp only [perform_bind, MayPerform, inductionHypothesis]

@[simp] theorem mayPerform_finish {kind : Act → Prop} (value : Value) :
    (finish value : Program Act Answer Value).MayPerform kind ↔ False := Iff.rfl

@[simp] theorem mayPerform_perform {kind : Act → Prop} (action : Act)
    (next : Answer action → Program Act Answer Value) :
    (perform action next).MayPerform kind ↔
      kind action ∨ ∃ answer, (next answer).MayPerform kind := Iff.rfl

/-! ### Running a program alone -/

/-- The program runs from the first state to the second without interference and returns the
value, where `acts` says what each action does. -/
def Runs (acts : (action : Act) → State → Answer action → State → Prop) :
    Program Act Answer Value → State → Value → State → Prop
  | .finish result, before, value, after => result = value ∧ before = after
  | .perform action next, before, value, after =>
      ∃ answer middle, acts action before answer middle ∧ (next answer).Runs acts middle value after

variable {acts : (action : Act) → State → Answer action → State → Prop}

@[simp] theorem runs_finish (result value : Value) (before after : State) :
    (finish result : Program Act Answer Value).Runs acts before value after ↔
      result = value ∧ before = after := Iff.rfl

@[simp] theorem runs_perform (action : Act) (next : Answer action → Program Act Answer Value)
    (before : State) (value : Value) (after : State) :
    (perform action next).Runs acts before value after ↔
      ∃ answer middle, acts action before answer middle ∧
        (next answer).Runs acts middle value after := Iff.rfl

/-- A run of a sequence is a run of its first part followed by a run of the rest. -/
theorem runs_bind (program : Program Act Answer Value)
    (next : Value → Program Act Answer Result) (before : State) (result : Result)
    (after : State) :
    (program >>= next).Runs acts before result after ↔
      ∃ value middle, program.Runs acts before value middle ∧
        (next value).Runs acts middle result after := by
  induction program generalizing before with
  | finish value =>
    constructor
    · exact fun run => ⟨value, before, ⟨rfl, rfl⟩, run⟩
    · rintro ⟨_, _, ⟨rfl, rfl⟩, run⟩
      exact run
  | perform action continuation inductionHypothesis =>
    simp only [perform_bind, runs_perform, inductionHypothesis]
    constructor
    · rintro ⟨answer, middle, acted, value, later, first, rest⟩
      exact ⟨value, later, ⟨answer, middle, acted, first⟩, rest⟩
    · rintro ⟨value, later, ⟨answer, middle, acted, first⟩, rest⟩
      exact ⟨answer, middle, acted, value, later, first, rest⟩

/-- A property that the actions of a program's footprint preserve survives its run. -/
theorem Runs.preserves {allowed : Act → Prop} {program : Program Act Answer Value}
    {before after : State} {value : Value} (run : program.Runs acts before value after)
    (within : program.Within allowed) (kept : State → Prop)
    (step : ∀ action before answer after, allowed action → acts action before answer after →
      kept before → kept after) (holds : kept before) : kept after := by
  induction program generalizing before with
  | finish result => exact run.2 ▸ holds
  | perform action next inductionHypothesis =>
    obtain ⟨answer, middle, acted, rest⟩ := run
    exact inductionHypothesis answer rest (within.2 answer)
      (step action before answer middle within.1 acted holds)

end Program

end Interleaving
