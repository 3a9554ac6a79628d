/-
This file compares two runs of one machine that differ in the events of hidden tasks. A view
says which part of the shared state the other tasks depend on. When no action of a hidden task
changes the view, and every action of a visible one answers the same in states with the same
view, then the hidden events can be purged from a run: what is left of it is not blocked, and
ends with the same view and the same visible tasks. Two runs whose events agree after the purge
therefore end alike.
-/

import Cicache.Lib.Machine

namespace Interleaving

variable {Act : Type} {Answer : Act → Type} {Id State Choice Arrival Value View : Type}

/-- The task an event moves or starts. -/
def Event.id : Event Id Choice Arrival → Id
  | .run id _ => id
  | .arrive id _ => id

/-- The events of visible tasks. -/
def purge (hidden : Id → Bool) (events : List (Event Id Choice Arrival)) :
    List (Event Id Choice Arrival) :=
  events.filter fun event => !hidden event.id

theorem purge_cons_hidden {hidden : Id → Bool} {event : Event Id Choice Arrival}
    (isHidden : hidden event.id = true) (rest : List (Event Id Choice Arrival)) :
    purge hidden (event :: rest) = purge hidden rest :=
  List.filter_cons_of_neg (by rw [isHidden]; exact Bool.false_ne_true)

theorem purge_cons_visible {hidden : Id → Bool} {event : Event Id Choice Arrival}
    (visible : hidden event.id = false) (rest : List (Event Id Choice Arrival)) :
    purge hidden (event :: rest) = event :: purge hidden rest :=
  List.filter_cons_of_pos (by rw [visible]; rfl)

/-- Where two lists agree on the visible events, a visible event of one is in the other. -/
theorem mem_of_purge_eq {hidden : Id → Bool} {first second : List (Event Id Choice Arrival)}
    (agree : purge hidden first = purge hidden second) {event : Event Id Choice Arrival}
    (visible : hidden event.id = false) (member : event ∈ second) : event ∈ first := by
  have kept : event ∈ purge hidden second := List.mem_filter.mpr ⟨member, by rw [visible]; rfl⟩
  rw [← agree] at kept
  exact (List.mem_filter.mp kept).1

/-- Purging more events undoes no agreement. -/
theorem purge_purge {fewer more : Id → Bool} (wider : ∀ id, fewer id = true → more id = true)
    (events : List (Event Id Choice Arrival)) :
    purge more (purge fewer events) = purge more events := by
  unfold purge
  rw [List.filter_filter]
  congr 1
  funext event
  cases shown : fewer event.id with
  | false => rw [Bool.not_false, Bool.and_true]
  | true => rw [wider _ shown]; rfl

/-- What a machine must satisfy for hidden events to be purged. Every task keeps to the actions
it is `allowed`, given that its arrival was `welcome`. -/
structure Unwinds (machine : Machine Act Answer Id State Choice Arrival Value)
    (hidden : Id → Bool) (view : State → View) (allowed : Id → Act → Prop)
    (welcome : Id → Arrival → Prop) : Prop where
  quiet : ∀ id action choice before answer after, hidden id = true → allowed id action →
    machine.exec id action choice before = some (answer, after) → view after = view before
  respects : ∀ id action choice before answer after other, hidden id = false →
    allowed id action → machine.exec id action choice before = some (answer, after) →
    view before = view other → ∃ later, machine.exec id action choice other =
      some (answer, later) ∧ view after = view later
  again : ∀ id value program, machine.again id value = some program →
    program.Within (allowed id)
  starts : ∀ id arrival before program after, welcome id arrival →
    machine.accept id arrival before = some (program, after) → program.Within (allowed id)
  quiet_start : ∀ id arrival before program after, hidden id = true →
    machine.accept id arrival before = some (program, after) → view after = view before
  respects_start : ∀ id arrival before program after other, hidden id = false →
    machine.accept id arrival before = some (program, after) → view before = view other →
    ∃ later, machine.accept id arrival other = some (program, later) ∧ view after = view later

/-- Two configurations with the same view and the same visible tasks. -/
structure Alike (hidden : Id → Bool) (view : State → View)
    (first second : Config Act Answer Id State Value) : Prop where
  shared : view first.shared = view second.shared
  tasks : ∀ id, hidden id = false → first.tasks id = second.tasks id

/-- A configuration whose tasks keep to the actions they are allowed. -/
def Confined (allowed : Id → Act → Prop) (config : Config Act Answer Id State Value) : Prop :=
  ∀ id program, config.tasks id = some program → program.Within (allowed id)

variable {machine : Machine Act Answer Id State Choice Arrival Value} {hidden : Id → Bool}
variable {view : State → View} {allowed : Id → Act → Prop} {welcome : Id → Arrival → Prop}

theorem Alike.rfl {config : Config Act Answer Id State Value} : Alike hidden view config config :=
  ⟨Eq.refl _, fun _ _ => Eq.refl _⟩

theorem Alike.symm {first second : Config Act Answer Id State Value}
    (alike : Alike hidden view first second) : Alike hidden view second first :=
  ⟨alike.shared.symm, fun id visible => (alike.tasks id visible).symm⟩

theorem Alike.trans {first second third : Config Act Answer Id State Value}
    (alike : Alike hidden view first second) (further : Alike hidden view second third) :
    Alike hidden view first third :=
  ⟨alike.shared.trans further.shared,
    fun id visible => (alike.tasks id visible).trans (further.tasks id visible)⟩

variable [DecidableEq Id]

/-- A hidden task that moves on, over a state with the same view, changes nothing visible. -/
theorem Alike.update_hidden {first second : Config Act Answer Id State Value}
    (alike : Alike hidden view first second) {id : Id} (isHidden : hidden id = true)
    (program : Program Act Answer Value) {shared : State}
    (same : view shared = view first.shared) :
    Alike hidden view ⟨shared, Function.update first.tasks id (some program)⟩ second := by
  refine ⟨same.trans alike.shared, fun other visible => ?_⟩
  have different : other ≠ id := by
    rintro rfl
    rw [isHidden] at visible
    cases visible
  exact (Function.update_of_ne different _ _).trans (alike.tasks other visible)

/-- A task that moves on alike in both configurations keeps them alike. -/
theorem Alike.update_both {first second : Config Act Answer Id State Value}
    (alike : Alike hidden view first second) (id : Id) (program : Program Act Answer Value)
    {one two : State} (same : view one = view two) :
    Alike hidden view ⟨one, Function.update first.tasks id (some program)⟩
      ⟨two, Function.update second.tasks id (some program)⟩ := by
  refine ⟨same, fun other visible => ?_⟩
  change Function.update first.tasks id (some program) other =
    Function.update second.tasks id (some program) other
  by_cases moved : other = id
  · subst moved
    rw [Function.update_self, Function.update_self]
  · rw [Function.update_of_ne moved, Function.update_of_ne moved]
    exact alike.tasks other visible

theorem Confined.update {config : Config Act Answer Id State Value}
    (confined : Confined allowed config) {id : Id} {program : Program Act Answer Value}
    (within : program.Within (allowed id)) (shared : State) :
    Confined allowed ⟨shared, Function.update config.tasks id (some program)⟩ := by
  intro other task found
  change Function.update config.tasks id (some program) other = some task at found
  by_cases moved : other = id
  · subst moved
    rw [Function.update_self, Option.some_inj] at found
    exact found ▸ within
  · rw [Function.update_of_ne moved] at found
    exact confined other task found

namespace Unwinds

/-- A step keeps the tasks to their actions. -/
theorem confined (unwinds : Unwinds machine hidden view allowed welcome)
    {before after : Config Act Answer Id State Value} {event : Event Id Choice Arrival}
    (welcomed : ∀ id arrival, event = .arrive id arrival → welcome id arrival)
    (stepped : machine.Stepped before event after) (kept : Confined allowed before) :
    Confined allowed after := by
  cases stepped with
  | acted task result => exact kept.update ((kept _ _ task).2 _) _
  | looped task result => exact kept.update (unwinds.again _ _ _ result) _
  | arrived free result =>
    exact kept.update (unwinds.starts _ _ _ _ _ (welcomed _ _ rfl) result) _

/-- A step of a hidden task changes nothing visible. -/
theorem step_hidden (unwinds : Unwinds machine hidden view allowed welcome)
    {before after other : Config Act Answer Id State Value} {event : Event Id Choice Arrival}
    (isHidden : hidden event.id = true) (stepped : machine.Stepped before event after)
    (kept : Confined allowed before) (alike : Alike hidden view before other) :
    Alike hidden view after other := by
  cases stepped with
  | acted task result =>
    exact alike.update_hidden isHidden _
      (unwinds.quiet _ _ _ _ _ _ isHidden (kept _ _ task).1 result)
  | looped task result => exact alike.update_hidden isHidden _ rfl
  | arrived free result =>
    exact alike.update_hidden isHidden _ (unwinds.quiet_start _ _ _ _ _ isHidden result)

/-- A step of a visible task is possible in every configuration that is alike. -/
theorem step_visible (unwinds : Unwinds machine hidden view allowed welcome)
    {before after other : Config Act Answer Id State Value} {event : Event Id Choice Arrival}
    (visible : hidden event.id = false) (stepped : machine.Stepped before event after)
    (kept : Confined allowed before) (alike : Alike hidden view before other) :
    ∃ later, machine.Stepped other event later ∧ Alike hidden view after later := by
  cases stepped with
  | acted task result =>
    obtain ⟨later, same, shared⟩ := unwinds.respects _ _ _ _ _ _ other.shared visible
      (kept _ _ task).1 result alike.shared
    exact ⟨_, .acted ((alike.tasks _ visible).symm.trans task) same,
      alike.update_both _ _ shared⟩
  | looped task result =>
    exact ⟨_, .looped ((alike.tasks _ visible).symm.trans task) result,
      alike.update_both _ _ alike.shared⟩
  | arrived free result =>
    obtain ⟨later, same, shared⟩ := unwinds.respects_start _ _ _ _ _ other.shared visible
      result alike.shared
    exact ⟨_, .arrived ((alike.tasks _ visible).symm.trans free) same,
      alike.update_both _ _ shared⟩

/-- The visible events of a run are a run of their own, which ends alike. -/
theorem run_purge (unwinds : Unwinds machine hidden view allowed welcome)
    {events : List (Event Id Choice Arrival)}
    (welcomed : ∀ id arrival, .arrive id arrival ∈ events → welcome id arrival)
    {before after other : Config Act Answer Id State Value}
    (ran : machine.run before events = some after) (kept : Confined allowed before)
    (alike : Alike hidden view before other) :
    ∃ later, machine.run other (purge hidden events) = some later ∧
      Alike hidden view after later := by
  induction events generalizing before other with
  | nil =>
    cases ran
    exact ⟨other, rfl, alike⟩
  | cons event rest inductionHypothesis =>
    obtain ⟨middle, stepped, ran⟩ := Option.bind_eq_some_iff.mp ran
    have stepped := (Machine.step_eq_some_iff ..).mp stepped
    have kept' := unwinds.confined
      (fun id arrival same => welcomed id arrival (same ▸ List.mem_cons_self)) stepped kept
    have welcomed' := fun id arrival member =>
      welcomed id arrival (List.mem_cons_of_mem event member)
    cases shown : hidden event.id with
    | true =>
      rw [purge_cons_hidden shown]
      exact inductionHypothesis welcomed' ran kept' (unwinds.step_hidden shown stepped kept alike)
    | false =>
      obtain ⟨next, stepped', alike'⟩ := unwinds.step_visible shown stepped kept alike
      obtain ⟨later, ran', ended⟩ := inductionHypothesis welcomed' ran kept' alike'
      rw [purge_cons_visible shown]
      refine ⟨later, ?_, ended⟩
      exact Option.bind_eq_some_iff.mpr ⟨next, (Machine.step_eq_some_iff ..).mpr stepped', ran'⟩

/-- Two runs that agree on the visible events end with the same view and the same visible
tasks. -/
theorem noninterference (unwinds : Unwinds machine hidden view allowed welcome)
    {start one two : Config Act Answer Id State Value} (kept : Confined allowed start)
    {first second : List (Event Id Choice Arrival)}
    (welcomed : ∀ id arrival, .arrive id arrival ∈ first ∨ .arrive id arrival ∈ second →
      welcome id arrival)
    (agree : purge hidden first = purge hidden second)
    (ranFirst : machine.run start first = some one)
    (ranSecond : machine.run start second = some two) : Alike hidden view one two := by
  obtain ⟨_, purged, alikeFirst⟩ := unwinds.run_purge
    (fun id arrival member => welcomed id arrival (Or.inl member)) ranFirst kept .rfl
  obtain ⟨_, again, alikeSecond⟩ := unwinds.run_purge
    (fun id arrival member => welcomed id arrival (Or.inr member)) ranSecond kept .rfl
  rw [agree, again, Option.some_inj] at purged
  subst purged
  exact alikeFirst.trans alikeSecond.symm

end Unwinds

end Interleaving
