/-
This file sets systems side by side that have a part of their states in common. A step of the whole
is a step of one system; every other system stands where it is, but finds the common part changed.
What a system keeps at its own steps and tolerates at the others' therefore holds of it in every
state the whole reaches.
-/

import Cicache.Lib.Machine

namespace Interleaving

/-! ### A common part -/

/-- A part that the states of several systems have in common. -/
structure Common (State Part : Type) where
  get : State → Part
  set : Part → State → State
  get_set : ∀ part state, get (set part state) = part
  set_get : ∀ state, set (get state) state = state
  set_set : ∀ part other state, set part (set other state) = set part state

/-- The common part, and the state of each system, whose own copy of the part does not count. -/
structure Beside (Job State Part : Type) where
  part : Part
  own : Job → State

/-- The event at one of the systems. -/
def Event.at {Job Id Choice Arrival : Type} (job : Job) :
    Event Id Choice Arrival → Event (Job × Id) Choice Arrival
  | .run id choice => .run (job, id) choice
  | .arrive id arrival => .arrive (job, id) arrival

namespace Beside

variable {Job State Part : Type} (common : Common State Part)

/-- The state as one of the systems sees it. -/
def view (beside : Beside Job State Part) (job : Job) : State :=
  common.set beside.part (beside.own job)

variable [DecidableEq Job]

/-- The state after one of the systems has moved. -/
def update (beside : Beside Job State Part) (job : Job) (state : State) : Beside Job State Part :=
  ⟨common.get state, Function.update beside.own job state⟩

theorem view_update_self (beside : Beside Job State Part) (job : Job) (state : State) :
    (beside.update common job state).view common job = state := by
  simp only [view, update, Function.update_self, common.set_get]

theorem view_update_of_ne (beside : Beside Job State Part) {job other : Job}
    (different : other ≠ job) (state : State) : (beside.update common job state).view common other =
      common.set (common.get state) (beside.view common other) := by
  simp only [view, update, Function.update_of_ne different, common.set_set]

end Beside

/-! ### Systems side by side -/

section Beside

variable {Act : Type} {Answer : Act → Type} {Job Id State Part Choice Arrival Value : Type}
variable [DecidableEq Job] (common : Common State Part)

/-- The system of all systems. -/
def Machine.beside (machines : Job → Machine Act Answer Id State Choice Arrival Value) :
    Machine Act Answer (Job × Id) (Beside Job State Part) Choice Arrival Value where
  exec id action choice beside :=
    ((machines id.1).exec id.2 action choice (beside.view common id.1)).map fun result =>
      (result.1, beside.update common id.1 result.2)
  again id value := (machines id.1).again id.2 value
  accept id arrival beside :=
    ((machines id.1).accept id.2 arrival (beside.view common id.1)).map fun result =>
      (result.1, beside.update common id.1 result.2)

/-- What one of the systems sees of a configuration. -/
def Config.of (config : Config Act Answer (Job × Id) (Beside Job State Part) Value) (job : Job) :
    Config Act Answer Id State Value :=
  ⟨config.shared.view common job, fun id => config.tasks (job, id)⟩

/-- Another system has changed the common part. -/
def Config.share (config : Config Act Answer Id State Value) (part : Part) :
    Config Act Answer Id State Value :=
  ⟨common.set part config.shared, config.tasks⟩

/-- What is permitted at one of the systems is permitted of the whole. -/
def besidePermits
    (permits : Job → Config Act Answer Id State Value → Event Id Choice Arrival → Prop)
    (config : Config Act Answer (Job × Id) (Beside Job State Part) Value) :
    Event (Job × Id) Choice Arrival → Prop
  | .run id choice => permits id.1 (config.of common id.1) (.run id.2 choice)
  | .arrive id arrival => permits id.1 (config.of common id.1) (.arrive id.2 arrival)

omit [DecidableEq Job] in
theorem besidePermits_at
    (permits : Job → Config Act Answer Id State Value → Event Id Choice Arrival → Prop)
    (config : Config Act Answer (Job × Id) (Beside Job State Part) Value) (job : Job)
    (event : Event Id Choice Arrival) :
    besidePermits common permits config (event.at job) ↔
      permits job (config.of common job) event := by
  cases event <;> rfl

variable {common} [DecidableEq Id]
variable {machines : Job → Machine Act Answer Id State Choice Arrival Value}

/-- Moving one task moves its system. -/
theorem update_tasks_self (tasks : Job × Id → Option (Program Act Answer Value))
    (job : Job) (id : Id)
    (program : Program Act Answer Value) :
    (fun other => Function.update tasks (job, id) (some program) (job, other)) =
      Function.update (fun other => tasks (job, other)) id (some program) := by
  funext other
  by_cases same : other = id
  · rw [same, Function.update_self, Function.update_self]
  · rw [Function.update_of_ne same, Function.update_of_ne fun equal => same (Prod.mk.inj equal).2]

theorem update_tasks_of_ne (tasks : Job × Id → Option (Program Act Answer Value)) {job other : Job}
    (different : other ≠ job) (id : Id) (program : Program Act Answer Value) :
    (fun task => Function.update tasks (job, id) (some program) (other, task)) =
      fun task => tasks (other, task) := by
  funext task
  exact Function.update_of_ne (fun equal => different (Prod.mk.inj equal).1) ..

variable (common) in
/-- The others see the common part that the mover leaves behind. -/
theorem of_update (before : Config Act Answer (Job × Id) (Beside Job State Part) Value) (job : Job)
    (id : Id) (state : State) (program : Program Act Answer Value) :
    let after : Config Act Answer (Job × Id) (Beside Job State Part) Value :=
      ⟨before.shared.update common job state,
        Function.update before.tasks (job, id) (some program)⟩
    after.of common job = ⟨state, Function.update (before.of common job).tasks id (some program)⟩ ∧
      ∀ other, other ≠ job → after.of common other =
        (before.of common other).share common (common.get state) := by
  intro after
  constructor
  · simp only [after, Config.of, Beside.view_update_self, update_tasks_self]
  · intro other different
    simp only [after, Config.of, Config.share, Beside.view_update_of_ne _ _ different,
      update_tasks_of_ne _ different]

/-- A step of the whole is a step of one system. -/
theorem beside_stepped {before after : Config Act Answer (Job × Id) (Beside Job State Part) Value}
    {event : Event (Job × Id) Choice Arrival}
    (stepped : (Machine.beside common machines).Stepped before event after) :
    ∃ job own, event = own.at job ∧
      (machines job).Stepped (before.of common job) own (after.of common job) ∧
      ∀ other, other ≠ job → after.of common other =
        (before.of common other).share common (common.get (after.of common job).shared) := by
  cases stepped with
  | @acted id choice action next answer shared task result =>
    obtain ⟨⟨told, state⟩, executed, same⟩ := Option.map_eq_some_iff.mp result
    cases same
    obtain ⟨self, others⟩ := of_update common before id.1 id.2 state (next told)
    refine ⟨id.1, .run id.2 choice, rfl, ?_, ?_⟩
    · rw [self]
      exact .acted task executed
    · rw [self]
      exact others
  | @looped id choice value program task result =>
    have self : (⟨before.shared, Function.update before.tasks id (some program)⟩ :
        Config Act Answer (Job × Id) (Beside Job State Part) Value).of common id.1 =
        ⟨(before.of common id.1).shared,
          Function.update (before.of common id.1).tasks id.2 (some program)⟩ := by
      simp only [Config.of, update_tasks_self]
    refine ⟨id.1, .run id.2 choice, rfl, ?_, fun other different => ?_⟩
    · rw [self]
      exact .looped task result
    · rw [self]
      simp only [Config.of, Config.share, update_tasks_of_ne _ different, Beside.view,
        common.get_set, common.set_set]
  | @arrived id arrival program shared free result =>
    obtain ⟨⟨told, state⟩, accepted, same⟩ := Option.map_eq_some_iff.mp result
    cases same
    obtain ⟨self, others⟩ := of_update common before id.1 id.2 state told
    refine ⟨id.1, .arrive id.2 arrival, rfl, ?_, ?_⟩
    · rw [self]
      exact .arrived free accepted
    · rw [self]
      exact others

/-- What every system keeps at its own steps, and at the others', holds of all of them in every
state that the whole reaches. -/
theorem Machine.Reaches.beside
    {permits : Job → Config Act Answer Id State Value → Event Id Choice Arrival → Prop}
    {start after : Config Act Answer (Job × Id) (Beside Job State Part) Value}
    (reached : (Machine.beside common machines).Reaches (besidePermits common permits) start after)
    (kept : Job → Config Act Answer Id State Value → Prop)
    (moves : ∀ job before event after, permits job before event →
      (machines job).Stepped before event after → kept job before → kept job after)
    (stands : ∀ job other before event after config, other ≠ job → permits job before event →
      (machines job).Stepped before event after → kept job before → kept other config →
      common.get config.shared = common.get before.shared →
      kept other (config.share common (common.get after.shared)))
    (holds : ∀ job, kept job (start.of common job)) (job : Job) :
    kept job (after.of common job) := by
  refine reached.preserves (fun config => ∀ job, kept job (config.of common job)) ?_ holds job
  intro before event next permitted stepped all other
  obtain ⟨mover, own, rfl, moved, others⟩ := beside_stepped stepped
  have permitted := (besidePermits_at common permits before mover own).mp permitted
  by_cases same : other = mover
  · subst same
    exact moves _ _ _ _ permitted moved (all _)
  · rw [others other same]
    refine stands mover other _ _ _ _ same permitted moved (all mover) (all other) ?_
    simp only [Config.of, Beside.view, common.get_set]

/-- The rely-guarantee rule for systems side by side: when each of them is guarded on its own, and
tolerates what the others do to the common part, then all stay guarded. -/
theorem Guarded.beside
    {permits : Job → Config Act Answer Id State Value → Event Id Choice Arrival → Prop}
    {acts : Job → Id → (action : Act) → State → Answer action → State → Prop}
    {inv : Job → State → Prop} {rely : Id → State → State → Prop}
    {post : Job → Id → Value → State → Prop}
    {start after : Config Act Answer (Job × Id) (Beside Job State Part) Value}
    (guards : ∀ job, Guards (machines job) (permits job) (acts job) (inv job) rely (post job))
    (tolerates : ∀ job other before event after state, other ≠ job → permits job before event →
      (machines job).Stepped before event after → inv job before.shared → inv job after.shared →
      inv other state → common.get state = common.get before.shared →
      inv other (common.set (common.get after.shared) state) ∧
        ∀ id, rely id state (common.set (common.get after.shared) state))
    (reached : (Machine.beside common machines).Reaches (besidePermits common permits) start after)
    (holds : ∀ job, Guarded (acts job) (inv job) rely (post job) (start.of common job))
    (job : Job) :
    Guarded (acts job) (inv job) rely (post job) (after.of common job) := by
  refine reached.beside (fun job => Guarded (acts job) (inv job) rely (post job)) ?_ ?_ holds job
  · exact fun job before event after permitted stepped guarded =>
      guarded.step (guards job) permitted stepped
  · intro job other before event after config different permitted stepped mover guarded same
    have moved := mover.step (guards job) permitted stepped
    obtain ⟨kept, tolerated⟩ := tolerates job other before event after config.shared different
      permitted stepped mover.shared moved.shared guarded.shared same
    exact ⟨kept, fun id program task =>
      (guarded.tasks id program task).later (guards other).isRely (tolerated id)⟩

/-- The systems begin side by side where each of them begins. -/
def Config.beside (part : Part) (starts : Job → Config Act Answer Id State Value) :
    Config Act Answer (Job × Id) (Beside Job State Part) Value where
  shared := ⟨part, fun job => (starts job).shared⟩
  tasks id := (starts id.1).tasks id.2

end Beside

end Interleaving
