/-
This file keeps the history of a run: the actions the tasks performed, in their order, each with
its answer. The part of it that one task performed is a path through that task's program, so what
holds of every path of a program holds of the task, however it was interleaved with the others.
What is counted over the whole history is the sum of what is counted over the tasks.
-/

import Cicache.Lib.Machine
import Mathlib.Algebra.BigOperators.Group.Finset.Piecewise

namespace Interleaving

/-- An action that was performed, and its answer. -/
structure Done (Act : Type) (Answer : Act → Type) where
  action : Act
  answer : Answer action

/-! ### Paths through a program -/

namespace Program

variable {Act : Type} {Answer : Act → Type} {Value Result : Type}

/-- Performing these actions with these answers leads from the one program to the other. -/
inductive Takes : Program Act Answer Value → List (Done Act Answer) →
    Program Act Answer Value → Prop where
  | here {program} : Takes program [] program
  | step {action next answer path rest} (later : Takes (next answer) path rest) :
      Takes (.perform action next) (⟨action, answer⟩ :: path) rest

/-- Performing these actions with these answers leads the program to its end. -/
def Finishes (program : Program Act Answer Value) (path : List (Done Act Answer)) (value : Value) :
    Prop := program.Takes path (.finish value)

@[simp] theorem finishes_finish (result value : Value) (path : List (Done Act Answer)) :
    (finish result : Program Act Answer Value).Finishes path value ↔
      path = [] ∧ result = value := by
  constructor
  · rintro ⟨⟩
    exact ⟨rfl, rfl⟩
  · rintro ⟨rfl, rfl⟩
    exact .here

@[simp] theorem finishes_perform (action : Act) (next : Answer action → Program Act Answer Value)
    (path : List (Done Act Answer)) (value : Value) :
    (perform action next).Finishes path value ↔
      ∃ answer rest, path = ⟨action, answer⟩ :: rest ∧ (next answer).Finishes rest value := by
  constructor
  · rintro (_ | later)
    exact ⟨_, _, rfl, later⟩
  · rintro ⟨answer, rest, rfl, later⟩
    exact .step later

theorem finishes_act (action : Act) (next : Answer action → Program Act Answer Value)
    (path : List (Done Act Answer)) (value : Value) :
    (act action >>= next).Finishes path value ↔
      ∃ answer rest, path = ⟨action, answer⟩ :: rest ∧ (next answer).Finishes rest value :=
  finishes_perform action next path value

theorem Takes.trans {first second third : Program Act Answer Value}
    {front back : List (Done Act Answer)} (begins : first.Takes front second)
    (goesOn : second.Takes back third) : first.Takes (front ++ back) third := by
  induction begins with
  | here => exact goesOn
  | step later inductionHypothesis => exact .step (inductionHypothesis goesOn)

/-- A path through a sequence is a path through its first part and one through the rest. -/
theorem finishes_bind (program : Program Act Answer Value)
    (next : Value → Program Act Answer Result) (path : List (Done Act Answer)) (result : Result) :
    (program >>= next).Finishes path result ↔ ∃ front value back, path = front ++ back ∧
      program.Finishes front value ∧ (next value).Finishes back result := by
  induction program generalizing path with
  | finish value =>
    constructor
    · exact fun run => ⟨[], value, path, rfl, .here, run⟩
    · rintro ⟨_, _, back, rfl, ends, run⟩
      obtain ⟨rfl, rfl⟩ := (finishes_finish ..).mp ends
      exact run
  | perform action continuation inductionHypothesis =>
    simp only [perform_bind, finishes_perform, inductionHypothesis]
    constructor
    · rintro ⟨answer, _, rfl, front, value, back, rfl, first, rest⟩
      exact ⟨⟨action, answer⟩ :: front, value, back, rfl, ⟨answer, front, rfl, first⟩, rest⟩
    · rintro ⟨_, value, back, rfl, ⟨answer, front, rfl, first⟩, rest⟩
      exact ⟨answer, front ++ back, rfl, front, value, back, rfl, first, rest⟩

/-- A path into a sequence is a path into its first part, or one through it and into the rest. -/
theorem takes_bind {program : Program Act Answer Value} {next : Value → Program Act Answer Result}
    {path : List (Done Act Answer)} {rest : Program Act Answer Result}
    (takes : (program >>= next).Takes path rest) :
    (∃ residue, program.Takes path residue ∧ rest = residue >>= next) ∨
      ∃ front value back, path = front ++ back ∧ program.Finishes front value ∧
        (next value).Takes back rest := by
  induction program generalizing path with
  | finish value => exact Or.inr ⟨[], value, path, rfl, .here, takes⟩
  | perform action continuation inductionHypothesis =>
    cases takes with
    | here => exact Or.inl ⟨_, .here, rfl⟩
    | step later =>
      rcases inductionHypothesis _ later with ⟨residue, begins, rfl⟩ |
        ⟨front, value, back, rfl, ends, goesOn⟩
      · exact Or.inl ⟨residue, .step begins, rfl⟩
      · exact Or.inr ⟨_ :: front, value, back, rfl, .step ends, goesOn⟩

/-- A program comes to its end in one way along given answers. -/
theorem Finishes.unique {program : Program Act Answer Value}
    {front other back rest : List (Done Act Answer)} {value result : Value}
    (ends : program.Finishes front value) (also : program.Finishes other result)
    (same : front ++ back = other ++ rest) : front = other ∧ value = result := by
  induction program generalizing front other with
  | finish last =>
    obtain ⟨rfl, rfl⟩ := (finishes_finish ..).mp ends
    obtain ⟨rfl, rfl⟩ := (finishes_finish ..).mp also
    exact ⟨rfl, rfl⟩
  | perform action next inductionHypothesis =>
    obtain ⟨answer, path, rfl, later⟩ := (finishes_perform ..).mp ends
    obtain ⟨answer', path', rfl, later'⟩ := (finishes_perform ..).mp also
    rw [List.cons_append, List.cons_append, List.cons.injEq] at same
    obtain ⟨⟨⟩, same⟩ := same
    obtain ⟨rfl, rfl⟩ := inductionHypothesis answer later later' same
    exact ⟨rfl, rfl⟩

/-- Every action on a path is in the program's footprint. -/
theorem Takes.allowed {allowed : Act → Prop} {program rest : Program Act Answer Value}
    {path : List (Done Act Answer)} (takes : program.Takes path rest)
    (within : program.Within allowed) : ∀ done ∈ path, allowed done.action := by
  induction takes with
  | here => exact fun _ member => absurd member List.not_mem_nil
  | step later inductionHypothesis =>
    rintro done (_ | ⟨_, member⟩)
    · exact within.1
    · exact inductionHypothesis (within.2 _) done member

/-- From anywhere a program can go on to its end. -/
theorem exists_finishes [∀ action, Nonempty (Answer action)] (program : Program Act Answer Value) :
    ∃ path value, program.Finishes path value := by
  induction program with
  | finish value => exact ⟨[], value, .here⟩
  | perform action next inductionHypothesis =>
    obtain ⟨answer⟩ := ‹∀ action, Nonempty (Answer action)› action
    obtain ⟨path, value, ends⟩ := inductionHypothesis answer
    exact ⟨⟨action, answer⟩ :: path, value, .step ends⟩

/-- A path can be gone on with to the end of the program. -/
theorem Takes.exists_finishes [∀ action, Nonempty (Answer action)]
    {program rest : Program Act Answer Value} {path : List (Done Act Answer)}
    (takes : program.Takes path rest) : ∃ back value, program.Finishes (path ++ back) value := by
  obtain ⟨back, value, ends⟩ := rest.exists_finishes
  exact ⟨back, value, takes.trans ends⟩

/-- A path into the first part of a sequence is a path into the sequence. -/
theorem Takes.bind {program rest : Program Act Answer Value} {path : List (Done Act Answer)}
    (takes : program.Takes path rest) (next : Value → Program Act Answer Result) :
    (program >>= next).Takes path (rest >>= next) := by
  induction takes with
  | here => exact .here
  | step later inductionHypothesis => exact .step inductionHypothesis

/-- A path through the first part of a sequence and one into the rest make a path. -/
theorem Finishes.bind {program : Program Act Answer Value} {front back : List (Done Act Answer)}
    {value : Value} {next : Value → Program Act Answer Result} {rest : Program Act Answer Result}
    (ends : program.Finishes front value) (goesOn : (next value).Takes back rest) :
    (program >>= next).Takes (front ++ back) rest := (Takes.bind ends next).trans goesOn

end Program

/-! ### The history of a run -/

namespace Machine

variable {Act : Type} {Answer : Act → Type} {Id State Choice Arrival Value : Type}

/-- The action performed in a step, and the task that performed it. -/
def performed (machine : Machine Act Answer Id State Choice Arrival Value)
    (config : Config Act Answer Id State Value) :
    Event Id Choice Arrival → Option (Id × Done Act Answer)
  | .run id choice =>
      match config.tasks id with
      | some (.perform action _) =>
          (machine.exec id action choice config.shared).map fun result => (id, ⟨action, result.1⟩)
      | _ => none
  | .arrive _ _ => none

variable {machine : Machine Act Answer Id State Choice Arrival Value}

theorem performed_acted {before : Config Act Answer Id State Value} {id : Id} {choice : Choice}
    {action : Act} {next : Answer action → Program Act Answer Value} {answer : Answer action}
    {shared : State} (task : before.tasks id = some (.perform action next))
    (result : machine.exec id action choice before.shared = some (answer, shared)) :
    machine.performed before (.run id choice) = some (id, ⟨action, answer⟩) := by
  simp [performed, task, result]

theorem performed_looped {before : Config Act Answer Id State Value} {id : Id} {choice : Choice}
    {value : Value} (task : before.tasks id = some (.finish value)) :
    machine.performed before (.run id choice) = none := by
  simp [performed, task]

theorem performed_arrived {before : Config Act Answer Id State Value} {id : Id}
    {arrival : Arrival} : machine.performed before (.arrive id arrival) = none := rfl

/-- Whoever performs an action in a step has it ahead and can do it. -/
theorem performed_eq_some {before : Config Act Answer Id State Value}
    {event : Event Id Choice Arrival}
    {id : Id} {done : Done Act Answer}
    (performed : machine.performed before event = some (id, done)) :
    ∃ choice next shared, event = .run id choice ∧
      before.tasks id = some (.perform done.action next) ∧
      machine.exec id done.action choice before.shared = some (done.answer, shared) := by
  cases event with
  | arrive mover arrival => cases performed
  | run mover choice =>
    cases task : before.tasks mover with
    | none => simp [Machine.performed, task] at performed
    | some program =>
      cases program with
      | finish value => simp [Machine.performed, task] at performed
      | perform action next =>
        simp only [Machine.performed, task, Option.map_eq_some_iff] at performed
        obtain ⟨⟨answer, shared⟩, result, same⟩ := performed
        cases same
        exact ⟨choice, next, shared, rfl, task, result⟩

variable [DecidableEq Id]

/-- The actions performed in a run. -/
def history (machine : Machine Act Answer Id State Choice Arrival Value)
    (config : Config Act Answer Id State Value) :
    List (Event Id Choice Arrival) → List (Id × Done Act Answer)
  | [] => []
  | event :: rest =>
      match machine.step config event with
      | none => []
      | some next => (machine.performed config event).toList ++ machine.history next rest

theorem history_cons {config next : Config Act Answer Id State Value}
    {event : Event Id Choice Arrival} (stepped : machine.step config event = some next)
    (rest : List (Event Id Choice Arrival)) :
    machine.history config (event :: rest) =
      (machine.performed config event).toList ++ machine.history next rest := by
  simp only [history, stepped]

theorem history_append {config middle : Config Act Answer Id State Value}
    {front : List (Event Id Choice Arrival)} (ran : machine.run config front = some middle)
    (back : List (Event Id Choice Arrival)) :
    machine.history config (front ++ back) =
      machine.history config front ++ machine.history middle back := by
  induction front generalizing config with
  | nil =>
    cases ran
    rfl
  | cons event rest inductionHypothesis =>
    obtain ⟨next, stepped, ran⟩ := Option.bind_eq_some_iff.mp ran
    rw [List.cons_append, history_cons stepped, history_cons stepped, inductionHypothesis ran,
      List.append_assoc]

/-- What is performed in a step of a run is in the history of the run. -/
theorem mem_history {config middle after : Config Act Answer Id State Value}
    {front back : List (Event Id Choice Arrival)} {event : Event Id Choice Arrival}
    {entry : Id × Done Act Answer} (ranFront : machine.run config front = some middle)
    (ran : machine.run config (front ++ event :: back) = some after)
    (performed : machine.performed middle event = some entry) :
    entry ∈ machine.history config (front ++ event :: back) := by
  rw [run_append, ranFront, Option.bind_some] at ran
  obtain ⟨next, stepped, -⟩ := Option.bind_eq_some_iff.mp ran
  rw [history_append ranFront, history_cons stepped, performed, Option.toList_some]
  exact List.mem_append_right _ (List.mem_cons_self ..)

end Machine

/-- The part of a history that one task performed. -/
def pathOf {Act : Type} {Answer : Act → Type} {Id : Type} [DecidableEq Id] (id : Id)
    (history : List (Id × Done Act Answer)) : List (Done Act Answer) :=
  history.filterMap fun entry => if entry.1 = id then some entry.2 else none

section PathOf

variable {Act : Type} {Answer : Act → Type} {Id : Type} [DecidableEq Id]

@[simp] theorem pathOf_append (id : Id) (front back : List (Id × Done Act Answer)) :
    pathOf id (front ++ back) = pathOf id front ++ pathOf id back := List.filterMap_append

@[simp] theorem pathOf_self (id : Id) (done : Done Act Answer) :
    pathOf id [(id, done)] = [done] := by
  simp [pathOf]

theorem pathOf_of_ne {id other : Id} (different : other ≠ id) (done : Done Act Answer) :
    pathOf id [(other, done)] = [] := by
  simp [pathOf, different]

theorem mem_pathOf {id : Id} {history : List (Id × Done Act Answer)} {done : Done Act Answer} :
    done ∈ pathOf id history ↔ (id, done) ∈ history := by
  rw [pathOf, List.mem_filterMap]
  constructor
  · rintro ⟨⟨other, performed⟩, member, same⟩
    dsimp only at same
    split at same
    · rename_i equal
      cases same
      exact equal ▸ member
    · cases same
  · exact fun member => ⟨(id, done), member, if_pos rfl⟩

/-- What only one task's actions change is made by that task's path. -/
theorem foldl_history {Acc : Type} (next : Acc → Done Act Answer → Acc) (id : Id)
    (history : List (Id × Done Act Answer))
    (others : ∀ entry ∈ history, entry.1 ≠ id → ∀ acc, next acc entry.2 = acc) (acc : Acc) :
    history.foldl (fun acc entry => next acc entry.2) acc = (pathOf id history).foldl next acc := by
  induction history generalizing acc with
  | nil => rfl
  | cons entry rest inductionHypothesis =>
    obtain ⟨performer, done⟩ := entry
    have later := inductionHypothesis fun entry member =>
      others entry (List.mem_cons_of_mem _ member)
    rw [List.foldl_cons, ← List.singleton_append, pathOf_append]
    by_cases same : performer = id
    · subst same
      rw [pathOf_self]
      exact later _
    · rw [pathOf_of_ne same, List.nil_append, others _ List.mem_cons_self same acc]
      exact later acc

/-- What is counted over a history is what is counted over the tasks that performed it. -/
theorem countP_history (counted : Done Act Answer → Bool) (history : List (Id × Done Act Answer))
    (ids : Finset Id) (covered : ∀ entry ∈ history, counted entry.2 = true → entry.1 ∈ ids) :
    history.countP (fun entry => counted entry.2) =
      ∑ id ∈ ids, (pathOf id history).countP counted := by
  induction history with
  | nil => exact (Finset.sum_eq_zero fun _ _ => rfl).symm
  | cons entry rest inductionHypothesis =>
    obtain ⟨performer, done⟩ := entry
    have parts : ∀ id, (pathOf id ((performer, done) :: rest)).countP counted =
        (if id = performer then (if counted done = true then 1 else 0) else 0) +
          (pathOf id rest).countP counted := by
      intro id
      rw [← List.singleton_append, pathOf_append, List.countP_append]
      by_cases same : id = performer
      · subst same
        rw [pathOf_self, if_pos rfl, List.countP_singleton]
      · rw [pathOf_of_ne (Ne.symm same), if_neg same]
        rfl
    rw [Finset.sum_congr rfl fun id _ => parts id, Finset.sum_add_distrib, Finset.sum_ite_eq',
      ← inductionHypothesis fun entry member => covered entry (List.mem_cons_of_mem _ member),
      List.countP_cons, Nat.add_comm]
    by_cases counts : counted done = true
    · rw [if_pos counts, if_pos (covered _ List.mem_cons_self counts)]
    · rw [if_neg counts, ite_self]

end PathOf

namespace Machine

variable {Act : Type} {Answer : Act → Type} {Id State Choice Arrival Value : Type}
variable [DecidableEq Id]
variable {machine : Machine Act Answer Id State Choice Arrival Value}
variable {start after : Config Act Answer Id State Value} {events : List (Event Id Choice Arrival)}

/-- What a task that does not loop performed is a path from where it started to where it is. -/
theorem takes_pathOf (ran : machine.run start events = some after) {id : Id}
    {program : Program Act Answer Value} (once : ∀ value, machine.again id value = none)
    (task : start.tasks id = some program) :
    ∃ rest, after.tasks id = some rest ∧
      program.Takes (pathOf id (machine.history start events)) rest := by
  induction events generalizing start program with
  | nil =>
    cases ran
    exact ⟨program, task, .here⟩
  | cons event others inductionHypothesis =>
    obtain ⟨next, stepped, ran⟩ := Option.bind_eq_some_iff.mp ran
    rw [history_cons stepped, pathOf_append]
    cases (step_eq_some_iff ..).mp stepped with
    | @acted mover choice action continuation answer shared moving result =>
      rw [performed_acted moving result, Option.toList_some]
      by_cases same : mover = id
      · subst same
        rw [task, Option.some_inj] at moving
        subst moving
        obtain ⟨rest, there, takes⟩ := inductionHypothesis ran (Function.update_self ..)
        rw [pathOf_self]
        exact ⟨rest, there, .step takes⟩
      · rw [pathOf_of_ne same]
        exact inductionHypothesis ran ((Function.update_of_ne (Ne.symm same) ..).trans task)
    | @looped mover choice value continuation moving result =>
      rw [performed_looped moving]
      refine inductionHypothesis ran ((Function.update_of_ne ?_ ..).trans task)
      rintro rfl
      rw [once] at result
      cases result
    | @arrived mover arrival continuation shared free result =>
      refine inductionHypothesis ran ((Function.update_of_ne ?_ ..).trans task)
      rintro rfl
      rw [task] at free
      cases free

/-- A task arrived in a run, and what it performed is a path from where it started. -/
def Arrived (machine : Machine Act Answer Id State Choice Arrival Value)
    (start : Config Act Answer Id State Value) (events : List (Event Id Choice Arrival))
    (after : Config Act Answer Id State Value) (id : Id) : Prop :=
  ∃ front arrival back config program shared, events = front ++ .arrive id arrival :: back ∧
    machine.run start front = some config ∧
    machine.accept id arrival config.shared = some (program, shared) ∧
    ∃ rest, after.tasks id = some rest ∧
      program.Takes (pathOf id (machine.history start events)) rest

/-- A task that was not there from the start arrived at some point, or it did not come to be and
performed nothing. -/
theorem arrived_or (ran : machine.run start events = some after) {id : Id}
    (once : ∀ value, machine.again id value = none) (free : start.tasks id = none) :
    (after.tasks id = none ∧ pathOf id (machine.history start events) = [] ∧
      ∀ arrival, .arrive id arrival ∉ events) ∨ machine.Arrived start events after id := by
  induction events generalizing start with
  | nil =>
    cases ran
    exact Or.inl ⟨free, rfl, fun _ => List.not_mem_nil⟩
  | cons event others inductionHypothesis =>
    obtain ⟨next, stepped, ran⟩ := Option.bind_eq_some_iff.mp ran
    have goesOn : next.tasks id = none → pathOf id (machine.performed start event).toList = [] →
        (∀ arrival, event ≠ .arrive id arrival) →
        (after.tasks id = none ∧ pathOf id (machine.history start (event :: others)) = [] ∧
          ∀ arrival, .arrive id arrival ∉ event :: others) ∨
        machine.Arrived start (event :: others) after id := by
      intro still idle other
      have same : pathOf id (machine.history start (event :: others)) =
          pathOf id (machine.history next others) := by
        rw [history_cons stepped, pathOf_append, idle, List.nil_append]
      rw [Arrived, same]
      rcases inductionHypothesis ran still with ⟨none, nothing, absent⟩ |
        ⟨front, arrival, back, config, program, shared, parts, reached, accepted, rest⟩
      · exact Or.inl ⟨none, nothing, fun arrival =>
          List.not_mem_cons_of_ne_of_not_mem (Ne.symm (other arrival)) (absent arrival)⟩
      · refine Or.inr ⟨event :: front, arrival, back, config, program, shared, ?_, ?_,
          accepted, rest⟩
        · rw [parts, List.cons_append]
        · simp only [run, stepped, Option.bind_some, reached]
    cases (step_eq_some_iff ..).mp stepped with
    | @acted mover choice action continuation answer shared moving result =>
      have different : mover ≠ id := by
        rintro rfl
        rw [free] at moving
        cases moving
      refine goesOn ((Function.update_of_ne (Ne.symm different) ..).trans free) ?_ (by rintro _ ⟨⟩)
      rw [performed_acted moving result, Option.toList_some, pathOf_of_ne different]
    | @looped mover choice value continuation moving result =>
      have different : mover ≠ id := by
        rintro rfl
        rw [free] at moving
        cases moving
      refine goesOn ((Function.update_of_ne (Ne.symm different) ..).trans free) ?_ (by rintro _ ⟨⟩)
      rw [performed_looped moving]
      rfl
    | @arrived mover arrival continuation shared unused result =>
      by_cases same : mover = id
      · subst same
        refine Or.inr ⟨[], arrival, others, start, continuation, shared, rfl, rfl, result, ?_⟩
        rw [history_cons stepped, performed_arrived, Option.toList_none, List.nil_append]
        exact takes_pathOf ran once (Function.update_self ..)
      · refine goesOn ((Function.update_of_ne (Ne.symm same) ..).trans free) rfl ?_
        rintro other ⟨⟩
        exact same rfl

/-- Every action of a history is in the footprint its task keeps to. -/
theorem history_within (ran : machine.run start events = some after) (allowed : Id → Act → Prop)
    (begins : ∀ id program, start.tasks id = some program → program.Within (allowed id))
    (loops : ∀ id value program, machine.again id value = some program →
      program.Within (allowed id))
    (arrives : ∀ id arrival before program shared,
      machine.accept id arrival before = some (program, shared) → program.Within (allowed id)) :
    ∀ entry ∈ machine.history start events, allowed entry.1 entry.2.action := by
  induction events generalizing start with
  | nil => exact fun _ member => absurd member List.not_mem_nil
  | cons event others inductionHypothesis =>
    obtain ⟨next, stepped, ran⟩ := Option.bind_eq_some_iff.mp ran
    have goesOn : ∀ mover program, next.tasks = Function.update start.tasks mover (some program) →
        program.Within (allowed mover) →
        ∀ id task, next.tasks id = some task → task.Within (allowed id) := by
      intro mover program tasks within id task found
      rw [tasks] at found
      by_cases same : id = mover
      · subst same
        rw [Function.update_self, Option.some_inj] at found
        exact found ▸ within
      · rw [Function.update_of_ne same] at found
        exact begins id task found
    rw [history_cons stepped]
    intro entry member
    rcases List.mem_append.mp member with now | later
    · cases (step_eq_some_iff ..).mp stepped with
      | acted moving result =>
        rw [performed_acted moving result, Option.toList_some, List.mem_singleton] at now
        subst now
        exact (begins _ _ moving).1
      | looped moving result =>
        rw [performed_looped moving] at now
        cases now
      | arrived free result => cases now
    · refine inductionHypothesis ran ?_ entry later
      cases (step_eq_some_iff ..).mp stepped with
      | acted moving result => exact goesOn _ _ rfl ((begins _ _ moving).2 _)
      | looped moving result => exact goesOn _ _ rfl (loops _ _ _ result)
      | arrived free result => exact goesOn _ _ rfl (arrives _ _ _ _ _ result)

/-- A number that changes with certain actions only, each time by one, counts them. -/
theorem count_history (ran : machine.run start events = some after) (number : State → Nat)
    (counted : Done Act Answer → Bool)
    (moves : ∀ id action choice before answer shared,
      machine.exec id action choice before = some (answer, shared) →
        number shared = number before + if counted ⟨action, answer⟩ = true then 1 else 0)
    (rests : ∀ id arrival before program shared,
      machine.accept id arrival before = some (program, shared) → number shared = number before) :
    number after.shared = number start.shared +
      (machine.history start events).countP fun entry => counted entry.2 := by
  induction events generalizing start with
  | nil =>
    cases ran
    rfl
  | cons event others inductionHypothesis =>
    obtain ⟨next, stepped, ran⟩ := Option.bind_eq_some_iff.mp ran
    rw [history_cons stepped, List.countP_append, inductionHypothesis ran, ← Nat.add_assoc]
    congr 1
    cases (step_eq_some_iff ..).mp stepped with
    | acted moving result =>
      rw [performed_acted moving result, Option.toList_some, List.countP_singleton]
      exact moves _ _ _ _ _ _ result
    | looped moving result =>
      rw [performed_looped moving]
      rfl
    | arrived free result => exact rests _ _ _ _ _ result

/-- Every action that is performed in a run keeps to a rule on the state it is performed in. -/
def Performing (machine : Machine Act Answer Id State Choice Arrival Value)
    (rule : State → Done Act Answer → Prop) (start : Config Act Answer Id State Value)
    (events : List (Event Id Choice Arrival)) : Prop :=
  ∀ front event back config id done, events = front ++ event :: back →
    machine.run start front = some config → machine.performed config event = some (id, done) →
    rule config.shared done

variable {rule : State → Done Act Answer → Prop}

/-- Keeping to a rule is taking permitted steps. -/
theorem performing_iff : machine.Performing rule start events ↔ machine.Permitting
    (fun config event => ∀ id done, machine.performed config event = some (id, done) →
      rule config.shared done) start events := by
  constructor
  · exact fun performing front event back config parts ran id done performed =>
      performing front event back config id done parts ran performed
  · exact fun permitting front event back config id done parts ran performed =>
      permitting front event back config parts ran id done performed

theorem Performing.first {event : Event Id Choice Arrival} {others : List (Event Id Choice Arrival)}
    (performing : machine.Performing rule start (event :: others)) {id : Id}
    {done : Done Act Answer}
    (performed : machine.performed start event = some (id, done)) : rule start.shared done :=
  (performing_iff.mp performing).first id done performed

theorem Performing.rest {event : Event Id Choice Arrival} {others : List (Event Id Choice Arrival)}
    (performing : machine.Performing rule start (event :: others))
    {next : Config Act Answer Id State Value} (stepped : machine.step start event = some next) :
    machine.Performing rule next others :=
  performing_iff.mpr ((performing_iff.mp performing).rest stepped)

theorem Performing.append {front back : List (Event Id Choice Arrival)}
    (performing : machine.Performing rule start (front ++ back))
    {middle : Config Act Answer Id State Value} (ran : machine.run start front = some middle) :
    machine.Performing rule start front ∧ machine.Performing rule middle back :=
  ((performing_iff.mp performing).append ran).imp performing_iff.mpr performing_iff.mpr

/-- A step whose action passes a check on the state. -/
def passes (machine : Machine Act Answer Id State Choice Arrival Value)
    (check : State → Done Act Answer → Bool) (config : Config Act Answer Id State Value)
    (event : Event Id Choice Arrival) : Bool :=
  (machine.performed config event).all fun entry => check config.shared entry.2

theorem Performing.of_runChecked {check : State → Done Act Answer → Bool}
    (ran : machine.runChecked (machine.passes check) start events = some after) :
    machine.run start events = some after ∧
      machine.Performing (fun state done => check state done = true) start events := by
  refine (Permitting.of_runChecked ?_ ran).imp_right performing_iff.mpr
  intro config event checked id done performed
  rw [passes, performed] at checked
  exact checked

/-- What was performed in a run was performed in one of its steps. -/
theorem exists_performed {entry : Id × Done Act Answer}
    (member : entry ∈ machine.history start events) :
    ∃ front event back config, events = front ++ event :: back ∧
      machine.run start front = some config ∧ machine.performed config event = some entry := by
  induction events generalizing start with
  | nil => cases member
  | cons event others inductionHypothesis =>
    rw [history] at member
    split at member
    · cases member
    · rename_i next stepped
      rcases List.mem_append.mp member with now | later
      · exact ⟨[], event, others, start, rfl, rfl, Option.mem_toList.mp now⟩
      · obtain ⟨front, other, back, config, rfl, ran, performed⟩ := inductionHypothesis later
        refine ⟨event :: front, other, back, config, rfl, ?_, performed⟩
        rw [run, stepped, Option.bind_some, ran]

/-- What every action that keeps to a rule keeps of the history so far and the shared state holds
at the end of a run. -/
theorem Performing.preserves (performing : machine.Performing rule start events)
    (ran : machine.run start events = some after)
    (kept : List (Id × Done Act Answer) → State → Prop)
    (acts : ∀ past id action choice before answer shared, kept past before →
      rule before ⟨action, answer⟩ → machine.exec id action choice before = some (answer, shared) →
        kept (past ++ [(id, ⟨action, answer⟩)]) shared)
    (arrives : ∀ past id arrival before program shared, kept past before →
      machine.accept id arrival before = some (program, shared) → kept past shared)
    {past : List (Id × Done Act Answer)} (holds : kept past start.shared) :
    kept (past ++ machine.history start events) after.shared := by
  induction events generalizing start past with
  | nil =>
    cases ran
    rw [history, List.append_nil]
    exact holds
  | cons event others inductionHypothesis =>
    obtain ⟨next, stepped, ran⟩ := Option.bind_eq_some_iff.mp ran
    rw [history_cons stepped, ← List.append_assoc]
    refine inductionHypothesis (performing.rest stepped) ran ?_
    cases (step_eq_some_iff ..).mp stepped with
    | acted moving result =>
      have performed := performed_acted moving result
      rw [performed, Option.toList_some]
      exact acts _ _ _ _ _ _ _ holds (performing.first performed) result
    | looped moving result =>
      rw [performed_looped moving, Option.toList_none, List.append_nil]
      exact holds
    | arrived free result =>
      rw [performed_arrived, Option.toList_none, List.append_nil]
      exact arrives _ _ _ _ _ _ holds result

/-- What every action keeps of the history so far and the shared state holds at the end of a run. -/
theorem history_preserves (ran : machine.run start events = some after)
    (kept : List (Id × Done Act Answer) → State → Prop)
    (acts : ∀ past id action choice before answer shared, kept past before →
      machine.exec id action choice before = some (answer, shared) →
        kept (past ++ [(id, ⟨action, answer⟩)]) shared)
    (arrives : ∀ past id arrival before program shared, kept past before →
      machine.accept id arrival before = some (program, shared) → kept past shared)
    {past : List (Id × Done Act Answer)} (holds : kept past start.shared) :
    kept (past ++ machine.history start events) after.shared := by
  have free : machine.Performing (fun _ _ => True) start events := fun _ _ _ _ _ _ _ _ _ => trivial
  exact free.preserves ran kept
    (fun past id action choice before answer shared kept _ => acts past id action choice before
      answer shared kept) arrives holds

end Machine

end Interleaving
