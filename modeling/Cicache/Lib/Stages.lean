/-
This file follows the tasks of a machine through stages. A task's stage is a function of what it has
performed, and a program follows the stages when every action it can come to is one that its stage
allows. What relates the stages of all tasks to the shared state is then proved one action at a
time, with no program in sight, and holds in every run.
-/

import Cicache.Lib.History

namespace Interleaving

/-- Stages of the tasks: where a task starts, where an action takes it, and which actions it may
perform there. -/
structure Stages (Act : Type) (Answer : Act → Type) (Id Stage : Type) where
  first : Stage
  next : Stage → Done Act Answer → Stage
  allows : Id → Stage → Act → Prop

namespace Stages

variable {Act : Type} {Answer : Act → Type} {Id Stage Value Result : Type}

/-- The stage behind a path. -/
def behind (stages : Stages Act Answer Id Stage) (path : List (Done Act Answer)) : Stage :=
  path.foldl stages.next stages.first

/-- Every action of the path is one its stage allows. -/
def Lawful (stages : Stages Act Answer Id Stage) (id : Id) : Stage → List (Done Act Answer) → Prop
  | _, [] => True
  | stage, done :: rest => stages.allows id stage done.action ∧
      stages.Lawful id (stages.next stage done) rest

/-- From this stage on, the program only performs what its stage allows, and it ends as given. -/
def Follows (stages : Stages Act Answer Id Stage) (id : Id) (ends : Value → Stage → Prop) :
    Program Act Answer Value → Stage → Prop
  | .finish value, stage => ends value stage
  | .perform action next, stage => stages.allows id stage action ∧
      ∀ answer, stages.Follows id ends (next answer) (stages.next stage ⟨action, answer⟩)

variable {stages : Stages Act Answer Id Stage} {id : Id} {ends : Value → Stage → Prop}
variable {last : Result → Stage → Prop} {stage : Stage}

theorem follows_finish {value : Value} (ended : ends value stage) :
    stages.Follows id ends (.finish value : Program Act Answer Value) stage := ended

theorem follows_act {action : Act} {next : Answer action → Program Act Answer Value}
    (allowed : stages.allows id stage action)
    (rest : ∀ answer, stages.Follows id ends (next answer) (stages.next stage ⟨action, answer⟩)) :
    stages.Follows id ends (Program.act action >>= next) stage := ⟨allowed, rest⟩

theorem follows_bind {program : Program Act Answer Value}
    {next : Value → Program Act Answer Result} (begins : stages.Follows id ends program stage)
    (rest : ∀ value later, ends value later → stages.Follows id last (next value) later) :
    stages.Follows id last (program >>= next) stage := by
  induction program generalizing stage with
  | finish value => exact rest value stage begins
  | perform action continuation inductionHypothesis =>
    exact ⟨begins.1, fun answer => inductionHypothesis answer (begins.2 answer)⟩

theorem Follows.mono {weaker : Value → Stage → Prop} {program : Program Act Answer Value}
    (follows : stages.Follows id ends program stage)
    (implies : ∀ value later, ends value later → weaker value later) :
    stages.Follows id weaker program stage := by
  induction program generalizing stage with
  | finish value => exact implies value stage follows
  | perform action continuation inductionHypothesis =>
    exact ⟨follows.1, fun answer => inductionHypothesis answer (follows.2 answer)⟩

/-- A program that follows the stages follows them also where more is allowed. -/
theorem Follows.widen {wider : Stages Act Answer Id Stage} {program : Program Act Answer Value}
    (follows : stages.Follows id ends program stage)
    (same : ∀ stage done, wider.next stage done = stages.next stage done)
    (allowed : ∀ stage action, stages.allows id stage action → wider.allows id stage action) :
    wider.Follows id ends program stage := by
  induction program generalizing stage with
  | finish value => exact follows
  | perform action continuation inductionHypothesis =>
    refine ⟨allowed stage action follows.1, fun answer => ?_⟩
    rw [same]
    exact inductionHypothesis answer (follows.2 answer)

/-- What a program that follows the stages performs is a lawful path, and the rest of it follows
the stages from where the path leads. -/
theorem Follows.lawful {program rest : Program Act Answer Value} {path : List (Done Act Answer)}
    (follows : stages.Follows id ends program stage) (takes : program.Takes path rest) :
    stages.Lawful id stage path ∧ stages.Follows id ends rest (path.foldl stages.next stage) := by
  induction takes generalizing stage with
  | here => exact ⟨trivial, follows⟩
  | step later inductionHypothesis =>
    obtain ⟨lawful, goesOn⟩ := inductionHypothesis (follows.2 _)
    exact ⟨⟨follows.1, lawful⟩, goesOn⟩

/-- Actions that leave the stage as it is. -/
def Rests (stages : Stages Act Answer Id Stage) (id : Id) (stage : Stage) (action : Act) : Prop :=
  stages.allows id stage action ∧ ∀ answer, stages.next stage ⟨action, answer⟩ = stage

/-- A program of such actions ends where it started. -/
theorem follows_of_within {program : Program Act Answer Value}
    (within : program.Within (stages.Rests id stage)) :
    stages.Follows id (fun _ later => later = stage) program stage := by
  induction program with
  | finish value => rfl
  | perform action continuation inductionHypothesis =>
    refine ⟨within.1.1, fun answer => ?_⟩
    rw [within.1.2 answer]
    exact inductionHypothesis answer (within.2 answer)

/-- What every allowed action keeps is kept on a lawful path. -/
theorem Lawful.keeps (kind : Stage → Prop) {path : List (Done Act Answer)}
    (lawful : stages.Lawful id stage path)
    (step : ∀ stage done, stages.allows id stage done.action → kind stage →
      kind (stages.next stage done)) (holds : kind stage) :
    kind (path.foldl stages.next stage) := by
  induction path generalizing stage with
  | nil => exact holds
  | cons done rest inductionHypothesis =>
    exact inductionHypothesis lawful.2 (step _ _ lawful.1 holds)

/-- A stage that only certain actions lead to was there before, or one of them is on the path. -/
theorem Lawful.entered (kind : Stage → Prop) (enters : Done Act Answer → Prop)
    {path : List (Done Act Answer)} (lawful : stages.Lawful id stage path)
    (step : ∀ stage done, stages.allows id stage done.action → kind (stages.next stage done) →
      kind stage ∨ enters done) (holds : kind (path.foldl stages.next stage)) :
    kind stage ∨ ∃ done ∈ path, enters done := by
  induction path generalizing stage with
  | nil => exact Or.inl holds
  | cons done rest inductionHypothesis =>
    rcases inductionHypothesis lawful.2 holds with now | ⟨other, member, enters⟩
    · refine (step _ _ lawful.1 now).imp_right fun enters => ?_
      exact ⟨done, List.mem_cons_self, enters⟩
    · exact Or.inr ⟨other, List.mem_cons_of_mem _ member, enters⟩

theorem Lawful.append {front back : List (Done Act Answer)}
    (lawful : stages.Lawful id stage (front ++ back)) :
    stages.Lawful id stage front ∧ stages.Lawful id (front.foldl stages.next stage) back := by
  induction front generalizing stage with
  | nil => exact ⟨trivial, lawful⟩
  | cons done rest inductionHypothesis =>
    obtain ⟨first, later⟩ := inductionHypothesis lawful.2
    exact ⟨⟨lawful.1, first⟩, later⟩

/-- An action on a lawful path was allowed at some stage, and the rest of the path is lawful. -/
theorem Lawful.of_mem {path : List (Done Act Answer)} (lawful : stages.Lawful id stage path)
    {done : Done Act Answer} (member : done ∈ path) :
    ∃ there rest, stages.allows id there done.action ∧
      stages.Lawful id (stages.next there done) rest ∧
      path.foldl stages.next stage = rest.foldl stages.next (stages.next there done) := by
  induction path generalizing stage with
  | nil => cases member
  | cons first rest inductionHypothesis =>
    rcases List.mem_cons.mp member with rfl | later
    · exact ⟨stage, rest, lawful.1, lawful.2, rfl⟩
    · exact inductionHypothesis lawful.2 later

end Stages

/-! ### The rule for runs -/

section Run

variable {Act : Type} {Answer : Act → Type} {Id State Choice Arrival Value Stage : Type}
variable [DecidableEq Id]

/-- Every task follows the stages, and a task that is not there has done nothing. -/
structure Staged (stages : Stages Act Answer Id Stage) (ends : Id → Value → Stage → Prop)
    (stage : Id → Stage) (config : Config Act Answer Id State Value) : Prop where
  tasks : ∀ id program, config.tasks id = some program →
    stages.Follows id (ends id) program (stage id)
  absent : ∀ id, config.tasks id = none → stage id = stages.first

theorem Staged.update {stages : Stages Act Answer Id Stage} {ends : Id → Value → Stage → Prop}
    {stage : Id → Stage} {config : Config Act Answer Id State Value}
    (staged : Staged stages ends stage config) {id : Id} {program : Program Act Answer Value}
    {reached : Stage} (shared : State) (follows : stages.Follows id (ends id) program reached) :
    Staged stages ends (Function.update stage id reached)
      ⟨shared, Function.update config.tasks id (some program)⟩ := by
  constructor
  · intro other task found
    by_cases same : other = id
    · subst same
      simp only [Function.update_self, Option.some_inj] at found ⊢
      exact found ▸ follows
    · simp only [Function.update_of_ne same] at found ⊢
      exact staged.tasks other task found
  · intro other none
    by_cases same : other = id
    · subst same
      simp only [Function.update_self, reduceCtorEq] at none
    · simp only [Function.update_of_ne same] at none ⊢
      exact staged.absent other none

/-- The stages that the paths of a history lead to. -/
def Stages.along {Act : Type} {Answer : Act → Type} {Id Stage : Type} [DecidableEq Id]
    (stages : Stages Act Answer Id Stage) (stage : Id → Stage)
    (history : List (Id × Done Act Answer)) (id : Id) : Stage :=
  (pathOf id history).foldl stages.next (stage id)

/-- An invariant between the past, the stages and the configuration that every step keeps holds at
the end of a run, of the stages that the tasks' paths lead to; and the paths are lawful. -/
theorem Staged.run_past {machine : Machine Act Answer Id State Choice Arrival Value}
    {stages : Stages Act Answer Id Stage} {ends : Id → Value → Stage → Prop}
    (inv : List (Id × Done Act Answer) → (Id → Stage) → Config Act Answer Id State Value → Prop)
    (acts : ∀ past stage config id choice action next answer shared, inv past stage config →
      config.tasks id = some (.perform action next) → stages.allows id (stage id) action →
      machine.exec id action choice config.shared = some (answer, shared) →
      inv (past ++ [(id, ⟨action, answer⟩)])
        (Function.update stage id (stages.next (stage id) ⟨action, answer⟩))
        ⟨shared, Function.update config.tasks id (some (next answer))⟩)
    (loops : ∀ past stage config id value program, inv past stage config →
      ends id value (stage id) → machine.again id value = some program →
      stages.Follows id (ends id) program (stage id) ∧
        inv past stage ⟨config.shared, Function.update config.tasks id (some program)⟩)
    {events : List (Event Id Choice Arrival)}
    (arrives : ∀ past stage config id arrival program shared, inv past stage config →
      .arrive id arrival ∈ events → config.tasks id = none →
      machine.accept id arrival config.shared = some (program, shared) →
      stages.Follows id (ends id) program stages.first ∧
        inv past stage ⟨shared, Function.update config.tasks id (some program)⟩)
    {start after : Config Act Answer Id State Value} {stage : Id → Stage}
    (ran : machine.run start events = some after) (staged : Staged stages ends stage start)
    (past : List (Id × Done Act Answer)) (holds : inv past stage start) :
    Staged stages ends (stages.along stage (machine.history start events)) after ∧
      inv (past ++ machine.history start events)
        (stages.along stage (machine.history start events)) after ∧
      ∀ id, stages.Lawful id (stage id) (pathOf id (machine.history start events)) := by
  induction events generalizing start stage past with
  | nil =>
    cases ran
    rw [Machine.history, List.append_nil]
    exact ⟨staged, holds, fun _ => trivial⟩
  | cons event rest inductionHypothesis =>
    obtain ⟨middle, stepped, ran⟩ := Option.bind_eq_some_iff.mp ran
    have later := fun past stage config id arrival program shared holds member =>
      arrives past stage config id arrival program shared holds (List.mem_cons_of_mem event member)
    rw [Machine.history_cons stepped]
    cases (Machine.step_eq_some_iff ..).mp stepped with
    | @acted mover choice action next answer shared task result =>
      have follows := staged.tasks mover _ task
      have goesOn := inductionHypothesis later ran (staged.update shared (follows.2 answer))
        _ (acts _ _ _ _ _ _ _ _ _ holds task follows.1 result)
      rw [Machine.performed_acted task result, Option.toList_some, ← List.append_assoc]
      have same : ∀ others, stages.along stage ([(mover, ⟨action, answer⟩)] ++ others) =
          stages.along (Function.update stage mover
            (stages.next (stage mover) ⟨action, answer⟩)) others := by
        intro others
        funext id
        rw [Stages.along, Stages.along, pathOf_append, List.foldl_append]
        by_cases moved : mover = id
        · subst moved
          rw [pathOf_self, Function.update_self]
          rfl
        · rw [pathOf_of_ne moved, Function.update_of_ne (Ne.symm moved)]
          rfl
      rw [same]
      refine ⟨goesOn.1, goesOn.2.1, fun id => ?_⟩
      rw [pathOf_append]
      have lawful := goesOn.2.2 id
      by_cases moved : mover = id
      · subst moved
        rw [Function.update_self] at lawful
        rw [pathOf_self]
        exact ⟨follows.1, lawful⟩
      · rw [Function.update_of_ne (Ne.symm moved)] at lawful
        rwa [pathOf_of_ne moved]
    | @looped mover choice value program task result =>
      obtain ⟨follows, kept⟩ := loops _ _ _ _ _ _ holds (staged.tasks mover _ task) result
      have goesOn := staged.update start.shared follows
      rw [Function.update_eq_self] at goesOn
      rw [Machine.performed_looped task]
      exact inductionHypothesis later ran goesOn past kept
    | @arrived mover arrival program shared free result =>
      obtain ⟨follows, kept⟩ := arrives _ _ _ _ _ _ _ holds List.mem_cons_self free result
      rw [← staged.absent mover free] at follows
      have goesOn := staged.update shared follows
      rw [Function.update_eq_self] at goesOn
      exact inductionHypothesis later ran goesOn past kept

/-- The rule for an invariant that does not speak of the past. -/
theorem Staged.run {machine : Machine Act Answer Id State Choice Arrival Value}
    {stages : Stages Act Answer Id Stage} {ends : Id → Value → Stage → Prop}
    (inv : (Id → Stage) → Config Act Answer Id State Value → Prop)
    (acts : ∀ stage config id choice action next answer shared, inv stage config →
      config.tasks id = some (.perform action next) → stages.allows id (stage id) action →
      machine.exec id action choice config.shared = some (answer, shared) →
      inv (Function.update stage id (stages.next (stage id) ⟨action, answer⟩))
        ⟨shared, Function.update config.tasks id (some (next answer))⟩)
    (loops : ∀ stage config id value program, inv stage config → ends id value (stage id) →
      machine.again id value = some program → stages.Follows id (ends id) program (stage id) ∧
        inv stage ⟨config.shared, Function.update config.tasks id (some program)⟩)
    {events : List (Event Id Choice Arrival)}
    (arrives : ∀ stage config id arrival program shared, inv stage config →
      .arrive id arrival ∈ events → config.tasks id = none →
      machine.accept id arrival config.shared = some (program, shared) →
      stages.Follows id (ends id) program stages.first ∧
        inv stage ⟨shared, Function.update config.tasks id (some program)⟩)
    {start after : Config Act Answer Id State Value} {stage : Id → Stage}
    (ran : machine.run start events = some after) (staged : Staged stages ends stage start)
    (holds : inv stage start) :
    Staged stages ends (stages.along stage (machine.history start events)) after ∧
      inv (stages.along stage (machine.history start events)) after ∧
      ∀ id, stages.Lawful id (stage id) (pathOf id (machine.history start events)) :=
  Staged.run_past (fun _ => inv) (fun _ => acts) (fun _ => loops) (fun _ => arrives)
    ran staged [] holds

end Run

end Interleaving
