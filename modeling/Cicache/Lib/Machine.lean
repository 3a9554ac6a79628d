/-
This file runs many programs at once. A configuration is a shared state and a family of tasks,
each a program of atomic actions; one step lets one task perform its next action, under a
choice the environment makes, or lets a new task arrive. Nothing is assumed about the order.

The proof rule is the rely-guarantee rule. Every task comes with a relation that bounds what
the other tasks may do to the shared state between two of its own actions; a program is `Safe`
when each of its actions, started in any state the others may have left behind, keeps the
invariant and stays within what every other task tolerates. Safe tasks stay safe however they
are interleaved, and a finished task's postcondition holds from then on.
-/

import Cicache.Lib.Program
import Mathlib.Logic.Function.Basic

namespace Interleaving

/-- What the environment decides next: which task moves and under which choice, or which task
arrives. -/
inductive Event (Id Choice Arrival : Type) : Type where
  | run (id : Id) (choice : Choice)
  | arrive (id : Id) (arrival : Arrival)
  deriving DecidableEq

/-- A system of tasks over a shared state. `exec` performs one action, and answers `none` where
the action is blocked under that choice; `again` is the next round of a task that loops;
`accept` starts the task of an arrival. -/
structure Machine (Act : Type) (Answer : Act → Type)
    (Id State Choice Arrival Value : Type) where
  exec : Id → (action : Act) → Choice → State → Option (Answer action × State)
  again : Id → Value → Option (Program Act Answer Value)
  accept : Id → Arrival → State → Option (Program Act Answer Value × State)

/-- The shared state and the tasks running over it. -/
structure Config (Act : Type) (Answer : Act → Type) (Id State Value : Type) where
  shared : State
  tasks : Id → Option (Program Act Answer Value)

namespace Machine

variable {Act : Type} {Answer : Act → Type} {Id State Choice Arrival Value : Type}
variable [DecidableEq Id]

/-- One step of the system. -/
def step (machine : Machine Act Answer Id State Choice Arrival Value)
    (config : Config Act Answer Id State Value) :
    Event Id Choice Arrival → Option (Config Act Answer Id State Value)
  | .run id choice =>
      match config.tasks id with
      | some (.perform action next) =>
          (machine.exec id action choice config.shared).map fun result =>
            ⟨result.2, Function.update config.tasks id (some (next result.1))⟩
      | some (.finish value) =>
          (machine.again id value).map fun program =>
            ⟨config.shared, Function.update config.tasks id (some program)⟩
      | none => none
  | .arrive id arrival =>
      match config.tasks id with
      | some _ => none
      | none =>
          (machine.accept id arrival config.shared).map fun result =>
            ⟨result.2, Function.update config.tasks id (some result.1)⟩

/-- The system after a list of events, when none of them is blocked. -/
def run (machine : Machine Act Answer Id State Choice Arrival Value)
    (config : Config Act Answer Id State Value) :
    List (Event Id Choice Arrival) → Option (Config Act Answer Id State Value)
  | [] => some config
  | event :: rest => (machine.step config event).bind fun next => machine.run next rest

theorem run_append (machine : Machine Act Answer Id State Choice Arrival Value)
    (config : Config Act Answer Id State Value) (front back : List (Event Id Choice Arrival)) :
    machine.run config (front ++ back) =
      (machine.run config front).bind fun middle => machine.run middle back := by
  induction front generalizing config with
  | nil => rfl
  | cons event rest inductionHypothesis =>
    rw [List.cons_append, run, run, Option.bind_assoc]
    exact congrArg _ (funext fun next => inductionHypothesis next)

/-- What a step did: a task performed an action, a looping task began its next round, or a task
arrived. -/
inductive Stepped (machine : Machine Act Answer Id State Choice Arrival Value)
    (config : Config Act Answer Id State Value) :
    Event Id Choice Arrival → Config Act Answer Id State Value → Prop where
  | acted {id choice action next answer shared}
      (task : config.tasks id = some (.perform action next))
      (result : machine.exec id action choice config.shared = some (answer, shared)) :
      Stepped machine config (.run id choice)
        ⟨shared, Function.update config.tasks id (some (next answer))⟩
  | looped {id choice value program}
      (task : config.tasks id = some (.finish value))
      (result : machine.again id value = some program) :
      Stepped machine config (.run id choice)
        ⟨config.shared, Function.update config.tasks id (some program)⟩
  | arrived {id arrival program shared}
      (free : config.tasks id = none)
      (result : machine.accept id arrival config.shared = some (program, shared)) :
      Stepped machine config (.arrive id arrival)
        ⟨shared, Function.update config.tasks id (some program)⟩

theorem step_eq_some_iff (machine : Machine Act Answer Id State Choice Arrival Value)
    (config after : Config Act Answer Id State Value) (event : Event Id Choice Arrival) :
    machine.step config event = some after ↔ machine.Stepped config event after := by
  constructor
  · intro stepped
    cases event with
    | run id choice =>
      cases task : config.tasks id with
      | none => simp [step, task] at stepped
      | some program =>
        cases program with
        | finish value =>
          simp only [step, task, Option.map_eq_some_iff] at stepped
          obtain ⟨next, result, rfl⟩ := stepped
          exact .looped task result
        | perform action next =>
          simp only [step, task, Option.map_eq_some_iff] at stepped
          obtain ⟨⟨answer, shared⟩, result, rfl⟩ := stepped
          exact .acted task result
    | arrive id arrival =>
      cases free : config.tasks id with
      | some program => simp [step, free] at stepped
      | none =>
        simp only [step, free, Option.map_eq_some_iff] at stepped
        obtain ⟨⟨program, shared⟩, result, rfl⟩ := stepped
        exact .arrived free result
  · rintro (⟨task, result⟩ | ⟨task, result⟩ | ⟨free, result⟩)
    · simp [step, task, result]
    · simp [step, task, result]
    · simp [step, free, result]

/-- The configurations a system reaches by steps that are all permitted. -/
inductive Reaches (machine : Machine Act Answer Id State Choice Arrival Value)
    (permits : Config Act Answer Id State Value → Event Id Choice Arrival → Prop)
    (start : Config Act Answer Id State Value) : Config Act Answer Id State Value → Prop where
  | refl : Reaches machine permits start start
  | step {before event after} (reached : Reaches machine permits start before)
      (permitted : permits before event) (stepped : machine.step before event = some after) :
      Reaches machine permits start after

variable {machine : Machine Act Answer Id State Choice Arrival Value}
variable {permits : Config Act Answer Id State Value → Event Id Choice Arrival → Prop}
variable {start middle after : Config Act Answer Id State Value}

theorem Reaches.trans (first : machine.Reaches permits start middle)
    (rest : machine.Reaches permits middle after) : machine.Reaches permits start after := by
  induction rest with
  | refl => exact first
  | step _ permitted stepped inductionHypothesis =>
    exact .step inductionHypothesis permitted stepped

/-- One more action of a task. -/
theorem Reaches.acted {before : Config Act Answer Id State Value}
    (reached : machine.Reaches permits start before) (id : Id) (choice : Choice) (action : Act)
    {next : Answer action → Program Act Answer Value} {answer : Answer action} {shared : State}
    (task : before.tasks id = some (.perform action next))
    (result : machine.exec id action choice before.shared = some (answer, shared))
    (permitted : permits before (.run id choice)) :
    machine.Reaches permits start
      ⟨shared, Function.update before.tasks id (some (next answer))⟩ :=
  .step reached permitted ((step_eq_some_iff ..).mpr (.acted task result))

/-- One more arrival. -/
theorem Reaches.arrived {before : Config Act Answer Id State Value}
    (reached : machine.Reaches permits start before) (id : Id) (arrival : Arrival)
    {program : Program Act Answer Value} {shared : State} (free : before.tasks id = none)
    (result : machine.accept id arrival before.shared = some (program, shared))
    (permitted : permits before (.arrive id arrival)) :
    machine.Reaches permits start
      ⟨shared, Function.update before.tasks id (some program)⟩ :=
  .step reached permitted ((step_eq_some_iff ..).mpr (.arrived free result))

/-- A list of permitted events that is not blocked reaches its result. -/
theorem Reaches.of_run {events : List (Event Id Choice Arrival)}
    (permitted : ∀ config, ∀ event ∈ events, permits config event)
    (ran : machine.run start events = some after) : machine.Reaches permits start after := by
  induction events generalizing start with
  | nil =>
    cases ran
    exact .refl
  | cons event rest inductionHypothesis =>
    obtain ⟨next, stepped, ran⟩ := Option.bind_eq_some_iff.mp ran
    have first : machine.Reaches permits start next :=
      .step .refl (permitted _ event List.mem_cons_self) stepped
    exact first.trans (inductionHypothesis
      (fun config event member => permitted config event (List.mem_cons_of_mem _ member)) ran)

/-- The system after a list of events, when none of them is blocked and all pass a check. -/
def runChecked (machine : Machine Act Answer Id State Choice Arrival Value)
    (check : Config Act Answer Id State Value → Event Id Choice Arrival → Bool)
    (config : Config Act Answer Id State Value) :
    List (Event Id Choice Arrival) → Option (Config Act Answer Id State Value)
  | [] => some config
  | event :: rest =>
      if check config event = true then
        (machine.step config event).bind fun next => machine.runChecked check next rest
      else none

/-- Every step of a list of events is permitted in the configuration it is taken in. -/
def Permitting (machine : Machine Act Answer Id State Choice Arrival Value)
    (permits : Config Act Answer Id State Value → Event Id Choice Arrival → Prop)
    (start : Config Act Answer Id State Value) (events : List (Event Id Choice Arrival)) : Prop :=
  ∀ front event back config, events = front ++ event :: back →
    machine.run start front = some config → permits config event

section Permitting

variable {event : Event Id Choice Arrival} {events front back : List (Event Id Choice Arrival)}

theorem Permitting.first (permitting : machine.Permitting permits start (event :: events)) :
    permits start event := permitting [] event events start rfl rfl

theorem Permitting.rest (permitting : machine.Permitting permits start (event :: events))
    (stepped : machine.step start event = some middle) :
    machine.Permitting permits middle events := by
  intro front later back config parts ran
  refine permitting (event :: front) later back config (by rw [parts, List.cons_append]) ?_
  simp only [run, stepped, Option.bind_some, ran]

theorem Permitting.append (permitting : machine.Permitting permits start (front ++ back))
    (ran : machine.run start front = some middle) :
    machine.Permitting permits start front ∧ machine.Permitting permits middle back := by
  constructor
  · intro before event behind config parts
    refine permitting before event (behind ++ back) config ?_
    rw [parts, List.append_assoc, List.cons_append]
  · intro before event behind config parts further
    refine permitting (front ++ before) event behind config ?_ ?_
    · rw [parts, List.append_assoc]
    · rw [run_append, ran, Option.bind_some, further]

theorem Permitting.reaches (permitting : machine.Permitting permits start events)
    (ran : machine.run start events = some after) : machine.Reaches permits start after := by
  induction events generalizing start with
  | nil =>
    cases ran
    exact .refl
  | cons event rest inductionHypothesis =>
    obtain ⟨next, stepped, ran⟩ := Option.bind_eq_some_iff.mp ran
    exact (Reaches.step .refl permitting.first stepped).trans
      (inductionHypothesis (permitting.rest stepped) ran)

/-- Where the check allows permitted steps only, a list that passes it runs by permitted steps. -/
theorem Permitting.of_runChecked
    {check : Config Act Answer Id State Value → Event Id Choice Arrival → Bool}
    (sound : ∀ config event, check config event = true → permits config event)
    (ran : machine.runChecked check start events = some after) :
    machine.run start events = some after ∧ machine.Permitting permits start events := by
  induction events generalizing start with
  | nil =>
    refine ⟨ran, fun front event back config parts => ?_⟩
    exact absurd parts (List.append_ne_nil_of_right_ne_nil front (List.cons_ne_nil event back)).symm
  | cons event rest inductionHypothesis =>
    rw [runChecked] at ran
    split at ran
    · rename_i checked
      obtain ⟨next, stepped, ran⟩ := Option.bind_eq_some_iff.mp ran
      obtain ⟨goesOn, permitting⟩ := inductionHypothesis ran
      constructor
      · rw [run, stepped, Option.bind_some, goesOn]
      · intro front later back config parts further
        cases front with
        | nil =>
          obtain ⟨rfl, rfl⟩ := List.cons.inj parts
          cases further
          exact sound _ _ checked
        | cons first front =>
          obtain ⟨rfl, same⟩ := List.cons.inj parts
          rw [run, stepped, Option.bind_some] at further
          exact permitting front later back config same further
    · cases ran

end Permitting

/-- Where the check allows permitted steps only, the list reaches its result. -/
theorem Reaches.of_runChecked
    {check : Config Act Answer Id State Value → Event Id Choice Arrival → Bool}
    (sound : ∀ config event, check config event = true → permits config event)
    {events : List (Event Id Choice Arrival)}
    (ran : machine.runChecked check start events = some after) :
    machine.Reaches permits start after := by
  obtain ⟨goesOn, permitting⟩ := Permitting.of_runChecked sound ran
  exact permitting.reaches goesOn

/-- A property that every permitted step preserves holds in every configuration reached. -/
theorem Reaches.preserves (kept : Config Act Answer Id State Value → Prop)
    (step : ∀ before event after, permits before event → machine.Stepped before event after →
      kept before → kept after)
    (reached : machine.Reaches permits start after) (holds : kept start) : kept after := by
  induction reached with
  | refl => exact holds
  | step _ permitted stepped inductionHypothesis =>
    exact step _ _ _ permitted ((step_eq_some_iff ..).mp stepped) inductionHypothesis

/-- What every step preserves may be counted on by a stronger rule of what is permitted. -/
theorem Reaches.strengthen (kept : Config Act Answer Id State Value → Prop)
    (stronger : Config Act Answer Id State Value → Event Id Choice Arrival → Prop)
    (reached : machine.Reaches permits start after)
    (step : ∀ before event after, permits before event → machine.Stepped before event after →
      kept before → kept after)
    (implies : ∀ config event, kept config → permits config event → stronger config event)
    (holds : kept start) : machine.Reaches stronger start after ∧ kept after := by
  induction reached with
  | refl => exact ⟨.refl, holds⟩
  | step _ permitted stepped inductionHypothesis =>
    obtain ⟨goesOn, held⟩ := inductionHypothesis
    exact ⟨.step goesOn (implies _ _ held permitted) stepped,
      step _ _ _ permitted ((step_eq_some_iff ..).mp stepped) held⟩

/-- A task never disappears. -/
theorem Stepped.task_isSome {before : Config Act Answer Id State Value}
    {event : Event Id Choice Arrival} (stepped : machine.Stepped before event after) {id : Id}
    (there : (before.tasks id).isSome = true) : (after.tasks id).isSome = true := by
  have kept : ∀ moved program,
      (Function.update before.tasks moved (some program) id).isSome = true := by
    intro moved program
    by_cases same : id = moved
    · rw [same, Function.update_self]
      rfl
    · rw [Function.update_of_ne same]
      exact there
  cases stepped <;> exact kept _ _

/-- Where there is a task already, none arrives. -/
theorem arrive_not_mem {events : List (Event Id Choice Arrival)}
    (ran : machine.run start events = some after) {id : Id}
    (there : (start.tasks id).isSome = true) (arrival : Arrival) :
    .arrive id arrival ∉ events := by
  induction events generalizing start with
  | nil => exact List.not_mem_nil
  | cons event rest inductionHypothesis =>
    obtain ⟨next, stepped, ran⟩ := Option.bind_eq_some_iff.mp ran
    have stepped := (step_eq_some_iff ..).mp stepped
    refine List.not_mem_cons_of_ne_of_not_mem ?_
      (inductionHypothesis ran (stepped.task_isSome there))
    rintro rfl
    cases stepped with
    | arrived free result =>
      rw [free] at there
      cases there

/-- A task that arrives was not there before. -/
theorem free_of_arrives {events : List (Event Id Choice Arrival)}
    (ran : machine.run start events = some after) {id : Id} {arrival : Arrival}
    (arrives : .arrive id arrival ∈ events) : start.tasks id = none := by
  by_contra occupied
  exact arrive_not_mem ran (Option.isSome_iff_ne_none.mpr occupied) arrival arrives

/-- At most one task arrives under one name. -/
theorem arrive_unique {events : List (Event Id Choice Arrival)}
    (ran : machine.run start events = some after) {id : Id} {first second : Arrival}
    (hasFirst : .arrive id first ∈ events) (hasSecond : .arrive id second ∈ events) :
    first = second := by
  induction events generalizing start with
  | nil => cases hasFirst
  | cons event rest inductionHypothesis =>
    obtain ⟨next, stepped, ran⟩ := Option.bind_eq_some_iff.mp ran
    have stepped := (step_eq_some_iff ..).mp stepped
    have occupied : ∀ arrival, event = .arrive id arrival → (next.tasks id).isSome = true := by
      rintro arrival rfl
      cases stepped
      change (Function.update start.tasks id (some _) id).isSome = true
      rw [Function.update_self]
      rfl
    rcases List.mem_cons.mp hasFirst with same | hasFirst
    · rcases List.mem_cons.mp hasSecond with same' | hasSecond
      · cases same.trans same'.symm
        rfl
      · exact absurd hasSecond (arrive_not_mem ran (occupied _ same.symm) second)
    · rcases List.mem_cons.mp hasSecond with same | hasSecond
      · exact absurd hasFirst (arrive_not_mem ran (occupied _ same.symm) first)
      · exact inductionHypothesis ran hasFirst hasSecond

/-- In some run the task comes to perform the action. -/
def ComesTo (machine : Machine Act Answer Id State Choice Arrival Value)
    (permits : Config Act Answer Id State Value → Event Id Choice Arrival → Prop)
    (start : Config Act Answer Id State Value) (id : Id) (action : Act) : Prop :=
  ∃ config next, machine.Reaches permits start config ∧
    config.tasks id = some (.perform action next)

end Machine

/-! ### The rely-guarantee rule -/

section Guarantee

variable {Act : Type} {Answer : Act → Type} {Id State Value Result : Type}
variable (acts : Id → (action : Act) → State → Answer action → State → Prop)
variable (inv : State → Prop) (rely : Id → State → State → Prop)

/-- A program of task `id` is safe in a state when, whatever the other tasks have done in the
meantime, its next action keeps the invariant, leaves every other task what that task relies
on, and goes on safely; and when it finishes with a postcondition the others cannot undo. -/
def Safe (id : Id) (post : Value → State → Prop) :
    Program Act Answer Value → State → Prop
  | .finish value, state => ∀ now, inv now → rely id state now → post value now
  | .perform action next, state =>
      ∀ now answer after, inv now → rely id state now → acts id action now answer after →
        inv after ∧ (∀ other, other ≠ id → rely other now after) ∧
          Safe id post (next answer) after

/-- What a rely must satisfy: the others may do nothing, and may do one thing after another. -/
structure IsRely : Prop where
  refl : ∀ id state, rely id state state
  trans : ∀ id first second third, rely id first second → rely id second third →
    rely id first third

variable {acts inv rely} {id : Id} {post : Value → State → Prop}

/-- A safe program stays safe under what the others do. -/
theorem Safe.later (isRely : IsRely rely) {program : Program Act Answer Value}
    {state now : State} (safe : Safe acts inv rely id post program state)
    (others : rely id state now) : Safe acts inv rely id post program now := by
  cases program with
  | finish value =>
    exact fun later kept moved => safe later kept (isRely.trans _ _ _ _ others moved)
  | perform action next =>
    exact fun later answer after kept moved acted =>
      safe later answer after kept (isRely.trans _ _ _ _ others moved) acted

/-- The postcondition may be weakened, in the states of the invariant. -/
theorem Safe.weaken {weaker : Value → State → Prop} {program : Program Act Answer Value}
    {state : State} (safe : Safe acts inv rely id post program state)
    (implies : ∀ value now, inv now → post value now → weaker value now) :
    Safe acts inv rely id weaker program state := by
  induction program generalizing state with
  | finish value => exact fun now kept moved => implies value now kept (safe now kept moved)
  | perform action next inductionHypothesis =>
    intro now answer after kept moved acted
    obtain ⟨keeps, tolerated, rest⟩ := safe now answer after kept moved acted
    exact ⟨keeps, tolerated, inductionHypothesis answer rest⟩

/-- Sequencing: the first program's postcondition is what the continuation starts from. -/
theorem Safe.bind (isRely : IsRely rely) {program : Program Act Answer Value}
    {next : Value → Program Act Answer Result} {last : Result → State → Prop} {state : State}
    (holds : inv state) (safe : Safe acts inv rely id post program state)
    (rest : ∀ value now, inv now → post value now →
      Safe acts inv rely id last (next value) now) :
    Safe acts inv rely id last (program >>= next) state := by
  induction program generalizing state with
  | finish value =>
    exact rest value state holds (safe state holds (isRely.refl _ _))
  | perform action continuation inductionHypothesis =>
    intro now answer after kept moved acted
    obtain ⟨keeps, tolerated, safeRest⟩ := safe now answer after kept moved acted
    exact ⟨keeps, tolerated, inductionHypothesis answer keeps safeRest⟩

theorem Safe.finish {value : Value} {state : State}
    (stable : ∀ now, inv now → rely id state now → post value now) :
    Safe acts inv rely id post (.finish value : Program Act Answer Value) state := stable

theorem Safe.perform {action : Act} {next : Answer action → Program Act Answer Value}
    {state : State}
    (step : ∀ now answer after, inv now → rely id state now → acts id action now answer after →
      inv after ∧ (∀ other, other ≠ id → rely other now after) ∧
        Safe acts inv rely id post (next answer) after) :
    Safe acts inv rely id post (.perform action next) state := step

theorem Safe.act {action : Act} {next : Answer action → Program Act Answer Value}
    {state : State}
    (step : ∀ now answer after, inv now → rely id state now → acts id action now answer after →
      inv after ∧ (∀ other, other ≠ id → rely other now after) ∧
        Safe acts inv rely id post (next answer) after) :
    Safe acts inv rely id post (Program.act action >>= next) state := step

/-- A program is safe when each action it can issue is harmless. -/
theorem Safe.of_within {allowed : Act → Prop} {program : Program Act Answer Value}
    (within : program.Within allowed)
    (each : ∀ action now answer after, allowed action → inv now →
      acts id action now answer after → inv after ∧ ∀ other, other ≠ id → rely other now after)
    (ends : ∀ value now, inv now → post value now) (state : State) :
    Safe acts inv rely id post program state := by
  induction program generalizing state with
  | finish value => exact fun now holds _ => ends value now holds
  | perform action next inductionHypothesis =>
    intro now answer after holds _ acted
    obtain ⟨keeps, tolerated⟩ := each action now answer after within.1 holds acted
    exact ⟨keeps, tolerated, inductionHypothesis answer (within.2 answer) after⟩

/-- A safe program that runs alone keeps the invariant and comes to its postcondition. -/
theorem Safe.of_runs (isRely : IsRely rely) {program : Program Act Answer Value}
    {before after : State} {value : Value} (holds : inv before)
    (safe : Safe acts inv rely id post program before)
    (run : program.Runs (acts id) before value after) : inv after ∧ post value after := by
  induction program generalizing before with
  | finish result =>
    obtain ⟨rfl, rfl⟩ := run
    exact ⟨holds, safe _ holds (isRely.refl _ _)⟩
  | perform action next inductionHypothesis =>
    obtain ⟨answer, middle, acted, rest⟩ := run
    obtain ⟨keeps, -, goesOn⟩ := safe before answer middle holds (isRely.refl _ _) acted
    exact inductionHypothesis answer keeps goesOn rest

/-- A configuration whose state satisfies the invariant and whose tasks are all safe. -/
structure Guarded (acts : Id → (action : Act) → State → Answer action → State → Prop)
    (inv : State → Prop) (rely : Id → State → State → Prop) (post : Id → Value → State → Prop)
    (config : Config Act Answer Id State Value) : Prop where
  shared : inv config.shared
  tasks : ∀ id program, config.tasks id = some program →
    Safe acts inv rely id (post id) program config.shared

/-- A finished task's postcondition holds. -/
theorem Guarded.finished (isRely : IsRely rely) {post : Id → Value → State → Prop}
    {config : Config Act Answer Id State Value} (guarded : Guarded acts inv rely post config)
    {value : Value} (task : config.tasks id = some (.finish value)) :
    post id value config.shared :=
  guarded.tasks id _ task config.shared guarded.shared (isRely.refl _ _)

variable {Choice Arrival : Type} [DecidableEq Id]

/-- What a machine must satisfy for the rule: permitted actions are among `acts`, a looping
task's next round is safe after the last, and an arriving task is safe and disturbs no one. -/
structure Guards (machine : Machine Act Answer Id State Choice Arrival Value)
    (permits : Config Act Answer Id State Value → Event Id Choice Arrival → Prop)
    (acts : Id → (action : Act) → State → Answer action → State → Prop)
    (inv : State → Prop) (rely : Id → State → State → Prop)
    (post : Id → Value → State → Prop) : Prop where
  isRely : IsRely rely
  acted : ∀ config id choice action next answer after, permits config (.run id choice) →
    Guarded acts inv rely post config → config.tasks id = some (.perform action next) →
    machine.exec id action choice config.shared = some (answer, after) →
    acts id action config.shared answer after
  looped : ∀ id value program state, inv state → post id value state →
    machine.again id value = some program → Safe acts inv rely id (post id) program state
  arrived : ∀ config id arrival program after, permits config (.arrive id arrival) →
    Guarded acts inv rely post config →
    machine.accept id arrival config.shared = some (program, after) →
    inv after ∧ (∀ other, other ≠ id → rely other config.shared after) ∧
      Safe acts inv rely id (post id) program after

variable {machine : Machine Act Answer Id State Choice Arrival Value}
variable {permits : Config Act Answer Id State Value → Event Id Choice Arrival → Prop}
variable {postOf : Id → Value → State → Prop}

/-- Replacing one task by a safe one, over a state the others tolerate, keeps all tasks safe. -/
theorem Guarded.update (isRely : IsRely rely) {config : Config Act Answer Id State Value}
    (guarded : Guarded acts inv rely postOf config) (id : Id)
    (program : Program Act Answer Value) (shared : State) (keeps : inv shared)
    (tolerated : ∀ other, other ≠ id → rely other config.shared shared)
    (safe : Safe acts inv rely id (postOf id) program shared) :
    Guarded acts inv rely postOf
      ⟨shared, Function.update config.tasks id (some program)⟩ := by
  refine ⟨keeps, fun other task found => ?_⟩
  change Function.update config.tasks id (some program) other = some task at found
  by_cases same : other = id
  · subst same
    rw [Function.update_self, Option.some_inj] at found
    exact found ▸ safe
  · rw [Function.update_of_ne same] at found
    exact (guarded.tasks other task found).later isRely (tolerated other same)

theorem Guarded.step (guards : Guards machine permits acts inv rely postOf)
    {before after : Config Act Answer Id State Value} {event : Event Id Choice Arrival}
    (guarded : Guarded acts inv rely postOf before) (permitted : permits before event)
    (stepped : machine.Stepped before event after) : Guarded acts inv rely postOf after := by
  cases stepped with
  | acted task result =>
    have acted := guards.acted _ _ _ _ _ _ _ permitted guarded task result
    obtain ⟨keeps, tolerated, safe⟩ := guarded.tasks _ _ task _ _ _ guarded.shared
      (guards.isRely.refl _ _) acted
    exact guarded.update guards.isRely _ _ _ keeps tolerated safe
  | looped task result =>
    have ended := guarded.finished guards.isRely task
    exact guarded.update guards.isRely _ _ _ guarded.shared
      (fun other _ => guards.isRely.refl other _)
      (guards.looped _ _ _ _ guarded.shared ended result)
  | arrived free result =>
    obtain ⟨keeps, tolerated, safe⟩ := guards.arrived _ _ _ _ _ permitted guarded result
    exact guarded.update guards.isRely _ _ _ keeps tolerated safe

/-- The rely-guarantee rule: safe tasks stay safe in every configuration reached. -/
theorem Guarded.reaches (guards : Guards machine permits acts inv rely postOf)
    {start after : Config Act Answer Id State Value}
    (guarded : Guarded acts inv rely postOf start)
    (reached : machine.Reaches permits start after) :
    Guarded acts inv rely postOf after :=
  reached.preserves _ (fun _ _ _ permitted stepped kept => kept.step guards permitted stepped)
    guarded

end Guarantee

end Interleaving
