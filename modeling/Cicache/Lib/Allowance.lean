/-
This file bounds how often the tasks of a system may still perform a kind of action once the
shared state has come to a point that it does not leave. A program `Spends` at most an allowance
when no answer that is then possible leads it to more such actions. A program is `Frugal` when it
spends at most one from wherever it is, and `Sparing` when it spends none from its beginning: that
is a program that looks before each such action whether it is still due. A program `Heeds` an
answer that tells it to stop when it goes on by closing what the others look at.
-/

import Cicache.Lib.History

namespace Interleaving

namespace Program

variable {Act : Type} {Answer : Act → Type} {Value Result : Type}
variable (costs : Act → Bool) (possible : (action : Act) → Answer action → Prop)

/-- As long as every answer is possible, at most so many of the actions cost. -/
def Spends : Program Act Answer Value → Nat → Prop
  | .finish _, _ => True
  | .perform action next, allowance =>
      (costs action = true → 0 < allowance) ∧ ∀ answer, possible action answer →
        (next answer).Spends (if costs action = true then allowance - 1 else allowance)

/-- From wherever it is, whatever it was answered so far, the program spends at most one. -/
def Frugal (program : Program Act Answer Value) : Prop :=
  ∀ path rest, program.Takes path rest → rest.Spends costs possible 1

/-- A frugal program that spends nothing from its beginning. -/
structure Sparing (program : Program Act Answer Value) : Prop where
  now : program.Spends costs possible 0
  later : program.Frugal costs possible

variable {costs possible}

theorem Spends.mono {program : Program Act Answer Value} {allowance wider : Nat}
    (spends : program.Spends costs possible allowance) (least : allowance ≤ wider) :
    program.Spends costs possible wider := by
  induction program generalizing allowance wider with
  | finish value => trivial
  | perform action next inductionHypothesis =>
    refine ⟨fun cost => (spends.1 cost).trans_le least, fun answer allowed => ?_⟩
    refine inductionHypothesis answer (spends.2 answer allowed) ?_
    split
    · exact Nat.sub_le_sub_right least 1
    · exact least

/-- What a sequence spends is what its parts spend. -/
theorem Spends.bind {program : Program Act Answer Value}
    {next : Value → Program Act Answer Result} {allowance : Nat}
    (first : program.Spends costs possible allowance)
    (rest : ∀ value, (next value).Spends costs possible 0) :
    (program >>= next).Spends costs possible allowance := by
  induction program generalizing allowance with
  | finish value => exact (rest value).mono (Nat.zero_le _)
  | perform action continuation inductionHypothesis =>
    exact ⟨first.1, fun answer allowed => inductionHypothesis answer (first.2 answer allowed)⟩

theorem Spends.of_within {program : Program Act Answer Value}
    (within : program.Within fun action => costs action = false) (allowance : Nat) :
    program.Spends costs possible allowance := by
  induction program generalizing allowance with
  | finish value => trivial
  | perform action next inductionHypothesis =>
    refine ⟨fun cost => ?_, fun answer _ => inductionHypothesis answer (within.2 answer) _⟩
    rw [within.1] at cost
    cases cost

theorem Frugal.next {action : Act} {next : Answer action → Program Act Answer Value}
    (frugal : (perform action next).Frugal costs possible) (answer : Answer action) :
    (next answer).Frugal costs possible :=
  fun _ rest takes => frugal _ rest (.step takes)

/-- A frugal program is frugal at its beginning and after any answer. -/
theorem Frugal.perform {action : Act} {next : Answer action → Program Act Answer Value}
    (begins : (Program.perform action next).Spends costs possible 1)
    (rest : ∀ answer, (next answer).Frugal costs possible) :
    (Program.perform action next).Frugal costs possible := by
  intro path residue takes
  cases takes with
  | here => exact begins
  | step later => exact rest _ _ _ later

/-- After an action that costs, a frugal program spares the rest. -/
theorem Frugal.pay {action : Act} {next : Answer action → Program Act Answer Value}
    (rest : ∀ answer, (next answer).Sparing costs possible) :
    (Program.perform action next).Frugal costs possible := by
  refine .perform ⟨fun _ => Nat.one_pos, fun answer _ => ?_⟩ fun answer => (rest answer).later
  exact (rest answer).now.mono (Nat.zero_le _)

theorem Frugal.bind {program : Program Act Answer Value}
    {next : Value → Program Act Answer Result} (first : program.Frugal costs possible)
    (rest : ∀ value, (next value).Sparing costs possible) :
    (program >>= next).Frugal costs possible := by
  intro path residue takes
  rcases takes_bind takes with ⟨middle, begins, rfl⟩ | ⟨front, value, back, -, -, goesOn⟩
  · exact (first path middle begins).bind fun value => (rest value).now
  · exact (rest value).later back residue goesOn

theorem Sparing.finish (value : Value) :
    (Program.finish value : Program Act Answer Value).Sparing costs possible := by
  refine ⟨trivial, fun path rest takes => ?_⟩
  cases takes
  trivial

theorem Sparing.bind {program : Program Act Answer Value}
    {next : Value → Program Act Answer Result} (first : program.Sparing costs possible)
    (rest : ∀ value, (next value).Sparing costs possible) :
    (program >>= next).Sparing costs possible :=
  ⟨first.now.bind fun value => (rest value).now, first.later.bind rest⟩

/-- An action that costs nothing may come before a sparing program; what follows an answer that is
no longer possible need only be frugal. -/
theorem Sparing.guard {action : Act} {next : Answer action → Program Act Answer Value}
    (free : costs action = false)
    (rest : ∀ answer, possible action answer → (next answer).Sparing costs possible)
    (otherwise : ∀ answer, (next answer).Frugal costs possible) :
    (Program.act action >>= next).Sparing costs possible := by
  have none : ∀ allowance, (perform action next).Spends costs possible allowance := by
    intro allowance
    refine ⟨fun cost => ?_, fun answer allowed => (rest answer allowed).now.mono (Nat.zero_le _)⟩
    rw [free] at cost
    cases cost
  exact ⟨none 0, .perform (none 1) otherwise⟩

theorem Sparing.act {action : Act} {next : Answer action → Program Act Answer Value}
    (free : costs action = false) (rest : ∀ answer, (next answer).Sparing costs possible) :
    (Program.act action >>= next).Sparing costs possible :=
  .guard free (fun answer _ => rest answer) fun answer => (rest answer).later

/-! ### Being told to stop -/

/-- An answer that tells the program to stop makes it perform the closing action next. -/
def Heeds (told : (action : Act) → Answer action → Prop) (closing : Act) :
    Program Act Answer Value → Prop
  | .finish _ => True
  | .perform action next => ∀ answer, (told action answer →
      ∃ rest, next answer = .perform closing rest) ∧ (next answer).Heeds told closing

section Heeds

variable {told : (action : Act) → Answer action → Prop} {closing : Act}

theorem Heeds.bind {program : Program Act Answer Value}
    {next : Value → Program Act Answer Result} (first : program.Heeds told closing)
    (rest : ∀ value, (next value).Heeds told closing) : (program >>= next).Heeds told closing := by
  induction program with
  | finish value => exact rest value
  | perform action continuation inductionHypothesis =>
    refine fun answer => ⟨fun tells => ?_, inductionHypothesis answer (first answer).2⟩
    obtain ⟨residue, closes⟩ := (first answer).1 tells
    exact ⟨_, congrArg (Program.bind · next) closes⟩

/-- A program that is never told to stop. -/
theorem Heeds.of_within {program : Program Act Answer Value}
    (within : program.Within fun action => ∀ answer, ¬ told action answer) :
    program.Heeds told closing := by
  induction program with
  | finish value => trivial
  | perform action next inductionHypothesis =>
    exact fun answer => ⟨fun tells => absurd tells (within.1 answer),
      inductionHypothesis answer (within.2 answer)⟩

end Heeds

/-- A program none of whose actions costs is sparing. -/
theorem Sparing.of_within {program : Program Act Answer Value}
    (within : program.Within fun action => costs action = false) :
    program.Sparing costs possible := by
  refine ⟨.of_within within 0, fun path rest takes => .of_within ?_ 1⟩
  induction takes with
  | here => exact within
  | step later inductionHypothesis => exact inductionHypothesis (within.2 _)

end Program

/-! ### A run -/

namespace Machine

variable {Act : Type} {Answer : Act → Type} {Id State Choice Arrival Value : Type}
variable [DecidableEq Id]
variable {machine : Machine Act Answer Id State Choice Arrival Value}
variable {start after : Config Act Answer Id State Value} {events : List (Event Id Choice Arrival)}

/-- What holds of every program that starts, and goes on holding after every action, holds of the
tasks wherever they are. -/
theorem tasks_of_run (ran : machine.run start events = some after)
    (holds : Program Act Answer Value → Prop)
    (goesOn : ∀ action next answer, holds (.perform action next) → holds (next answer))
    (loops : ∀ id value program, machine.again id value = some program → holds program)
    (arrives : ∀ id arrival before program shared,
      machine.accept id arrival before = some (program, shared) → holds program)
    (begins : ∀ id program, start.tasks id = some program → holds program) :
    ∀ id program, after.tasks id = some program → holds program := by
  induction events generalizing start with
  | nil =>
    cases ran
    exact begins
  | cons event others inductionHypothesis =>
    obtain ⟨next, stepped, ran⟩ := Option.bind_eq_some_iff.mp ran
    have moved : ∀ mover program, holds program → ∀ id task,
        Function.update start.tasks mover (some program) id = some task → holds task := by
      intro mover program held id task found
      by_cases same : id = mover
      · rw [same, Function.update_self, Option.some_inj] at found
        exact found ▸ held
      · rw [Function.update_of_ne same] at found
        exact begins id task found
    refine inductionHypothesis ran ?_
    cases (step_eq_some_iff ..).mp stepped with
    | acted task result => exact moved _ _ (goesOn _ _ _ (begins _ _ task))
    | looped task result => exact moved _ _ (loops _ _ _ result)
    | arrived free result => exact moved _ _ (arrives _ _ _ _ _ result)

variable {costs : Act → Bool} {possible : (action : Act) → Answer action → Prop}

/-- Where the shared state only leaves certain answers possible and keeps to that, and every
program that starts spends nothing, each task spends at most its allowance. -/
theorem spent_le (ran : machine.run start events = some after) (closed : State → Prop)
    (closes : closed start.shared)
    (acts : ∀ id action choice before answer shared, closed before →
      machine.exec id action choice before = some (answer, shared) →
        possible action answer ∧ closed shared)
    (loops : ∀ id value program, machine.again id value = some program →
      program.Spends costs possible 0)
    (arrives : ∀ id arrival before program shared, closed before →
      machine.accept id arrival before = some (program, shared) →
        program.Spends costs possible 0 ∧ closed shared)
    (allowance : Id → Nat)
    (begins : ∀ id program, start.tasks id = some program →
      program.Spends costs possible (allowance id)) (id : Id) :
    (pathOf id (machine.history start events)).countP (fun done => costs done.action) ≤
      allowance id := by
  induction events generalizing start allowance with
  | nil => exact Nat.zero_le _
  | cons event others inductionHypothesis =>
    obtain ⟨next, stepped, ran⟩ := Option.bind_eq_some_iff.mp ran
    rw [history_cons stepped, pathOf_append, List.countP_append]
    have moved : ∀ mover program (left : Id → Nat), program.Spends costs possible (left mover) →
        (∀ other, other ≠ mover → left other = allowance other) → ∀ other task,
        Function.update start.tasks mover (some program) other = some task →
          task.Spends costs possible (left other) := by
      intro mover program left spends rest other task found
      by_cases same : other = mover
      · subst same
        rw [Function.update_self, Option.some_inj] at found
        exact found ▸ spends
      · rw [Function.update_of_ne same] at found
        rw [rest other same]
        exact begins other task found
    cases (step_eq_some_iff ..).mp stepped with
    | @acted mover choice action continuation answer shared task result =>
      obtain ⟨allowed, stays⟩ := acts _ _ _ _ _ _ closes result
      obtain ⟨affords, spends⟩ := begins _ _ task
      obtain ⟨left, here, elsewhere⟩ : ∃ left : Id → Nat,
          left mover = (if costs action = true then allowance mover - 1 else allowance mover) ∧
            ∀ other, other ≠ mover → left other = allowance other :=
        ⟨Function.update allowance mover _, Function.update_self ..,
          fun other different => Function.update_of_ne different ..⟩
      have rest := inductionHypothesis ran stays left
        (moved mover _ left (here ▸ spends answer allowed) elsewhere)
      rw [performed_acted task result, Option.toList_some]
      by_cases same : mover = id
      · subst same
        rw [pathOf_self, List.countP_singleton]
        rw [here] at rest
        by_cases cost : costs action = true
        · have affordable := affords cost
          rw [if_pos cost] at rest ⊢
          omega
        · rw [if_neg cost] at rest ⊢
          rwa [Nat.zero_add]
      · rw [pathOf_of_ne same, List.countP_nil, Nat.zero_add]
        exact (elsewhere id (Ne.symm same)) ▸ rest
    | @looped mover choice value program task result =>
      rw [performed_looped task, Option.toList_none, pathOf, List.filterMap_nil, List.countP_nil,
        Nat.zero_add]
      exact inductionHypothesis ran closes allowance (moved mover program allowance
        ((loops _ _ _ result).mono (Nat.zero_le _)) fun _ _ => rfl)
    | @arrived mover arrival program shared free result =>
      obtain ⟨spends, stays⟩ := arrives _ _ _ _ _ closes result
      rw [performed_arrived, Option.toList_none, pathOf, List.filterMap_nil, List.countP_nil,
        Nat.zero_add]
      exact inductionHypothesis ran stays allowance (moved mover program allowance
        (spends.mono (Nat.zero_le _)) fun _ _ => rfl)

end Machine

end Interleaving
