/-
This file settles whether `stop` waits for the daemon. It takes the existence of the summary for the
end of the flush, but the summary of an earlier daemon exists as well, since nothing removes it, and
so does one that was just created and has no bytes yet. Where the wait ends on neither, `stop`
reports the summary of its own daemon, removes the objects after the flush only, and cleans up.
-/

import Cicache.Lifecycle
import Cicache.World
import Cicache.Lib.Ending

namespace Cicache

open Text Interleaving

namespace Command

/-- What the commands rely on of the serialisers. -/
structure Serde.Lawful (serde : Serde) : Prop where
  state : ∀ state, serde.state_from_str (serde.state_to_vec state) = some state
  empty : serde.state_from_str "" = none
  summary : ∀ summary, serde.summary_from_str (serde.summary_to_vec summary) = some summary

/-! ### The environment -/

/-- Nothing fails, and the daemon exits before a deadline passes. -/
def Timely (host : Host) (action : Act) (choice : Choice) : Prop :=
  match action with
  | .create _ | .write _ _ | .remove_file _ | .create_objects | .remove_objects | .spawn =>
      choice = .done true
  | .set_up => choice ≠ .state none
  | .serve => choice ≠ .done false
  | .past_deadline => choice = .passed true → host.current ∈ host.exited
  | _ => True

/-- The summary `stop` looks for is not there, or the daemon has written all of it. -/
def Settled (host : Host) (action : Act) : Prop :=
  action = .exists_ .summary_json →
    host.content .summary_json = none ∨ host.current ∈ host.reported

/-- The steps that keep to a rule. -/
def Keeping (rule : Host → Act → Choice → Prop) (config : Config Act Answer Process Host Phase) :
    Event Process Choice Unit → Prop
  | .run id choice => ∀ action next, config.tasks id = some (.perform action next) →
      rule config.shared action choice
  | .arrive _ _ => True

/-! ### The invariant -/

/-- What a daemon has achieved. -/
def Host.record (host : Host) (number : Nat) : Bool × Option Summary × Bool × Bool :=
  (number ∈ host.announced, host.flushed number, number ∈ host.reported, number ∈ host.exited)

/-- What holds whatever the commands are at: only the last daemon has not written its summary, what
is in the files is its, and objects were removed only behind a flush. -/
structure Orderly (serde : Serde) (host : Host) : Prop where
  begun : ∀ number ∈ host.begun, number < host.spawned
  fresh : ∀ number ∉ host.begun, host.record number = (false, none, false, false)
  earlier : ∀ number, number + 1 < host.spawned → number ∈ host.reported
  exited : host.exited ⊆ host.reported
  reported : host.reported ⊆ host.announced
  state : ∀ contents, host.content .state_json = some contents →
    contents = "" ∨ host.current ∈ host.announced
  announced : host.current ∈ host.announced → host.current ∉ host.removed →
    ∃ state, host.content .state_json = some (serde.state_to_vec state)
  summary : host.current ∈ host.reported → ∃ summary, host.flushed host.current = some summary ∧
    host.content .summary_json = some (serde.summary_to_vec summary)
  removed : ∀ number ∈ host.removed, host.flushed number ≠ none

/-- What a process relies on: the daemons leave the job the files they have written, and to each
daemon the others leave its record. -/
def Leaves : Process → Host → Host → Prop
  | .job, before, after => after.spawned = before.spawned ∧ after.removed = before.removed ∧
      before.announced ⊆ after.announced ∧ before.reported ⊆ after.reported ∧
      ((∀ number < before.spawned, number ∈ before.announced) →
        after.content .state_json = before.content .state_json) ∧
      ∀ number ∈ before.reported, after.flushed number = before.flushed number
  | .daemon number, before, after => (number ∈ before.begun → number ∈ after.begun) ∧
      after.record number = before.record number

theorem leaves_isRely : IsRely Leaves where
  refl id host := by
    cases id with
    | job => exact ⟨rfl, rfl, subset_rfl, subset_rfl, fun _ => rfl, fun _ _ => rfl⟩
    | daemon number => exact ⟨id, rfl⟩
  trans id first second third := by
    cases id with
    | job =>
      rintro ⟨spawned, removed, announced, reported, state, flushed⟩
        ⟨spawned', removed', announced', reported', state', flushed'⟩
      refine ⟨spawned'.trans spawned, removed'.trans removed, announced.trans announced',
        reported.trans reported', fun all => ?_, fun number member => ?_⟩
      · rw [state' fun number below => announced (all number (spawned ▸ below)), state all]
      · rw [flushed' number (reported member), flushed number member]
    | daemon number =>
      rintro ⟨begun, record⟩ ⟨begun', record'⟩
      exact ⟨begun' ∘ begun, record'.trans record⟩

/-- `start` has seen that the daemon is there, and `stop` has not cleaned up behind it. -/
structure Running (host : Host) : Prop where
  announced : host.current ∈ host.announced
  kept : host.current ∉ host.removed

/-- What holds between two commands or two rounds of the job. -/
def Between : Process → Phase → Host → Prop
  | .job, .waiting, host => 0 < host.spawned ∧ host.current ∉ host.removed
  | .job, .started, host => Running host
  | .job, .failed, host => Running host
  | .job, .polling, host => Running host
  | .job, .stopped report, host => host.content .state_json = none ∧
      (∀ number < host.spawned, number ∈ host.reported) ∧
      ∃ summary, report = .cleaned (some summary) ∧ host.flushed host.current = some summary
  | _, _, _ => True

/-- What the machine may do when the environment keeps to both rules. -/
def Acts (id : Process) (action : Act) (before : Host) (answer : Answer action) (after : Host) :
    Prop :=
  ∃ choice, (Timely before action choice ∧ Settled before action) ∧
    Host.exec id action choice before = some (answer, after)

/-! ### Actions the invariant does not speak of -/

/-- The state but for what the invariant does not speak of. -/
def Host.core (host : Host) : Host :=
  { host with objects := false, curlrc := false, trust := false, requested := ∅ }

/-- Actions that leave the files and the daemons' records alone. -/
def Act.idle : Act → Bool
  | .create _ | .write _ _ | .remove_file _ | .remove_objects | .spawn | .flush | .exit => false
  | _ => true

theorem exec_idle {id : Process} {action : Act} {choice : Choice} {before after : Host}
    {answer : Answer action} (idle : action.idle = true)
    (result : Host.exec id action choice before = some (answer, after)) :
    after.core = before.core := by
  cases action <;> cases idle <;> simp only [Host.exec] at result <;>
    (repeat' split at result) <;> cases result <;> rfl

theorem Orderly.of_core {serde : Serde} {before after : Host} (orderly : Orderly serde before)
    (same : after.core = before.core) : Orderly serde after := by
  have core : Orderly serde after.core := by
    rw [same]
    exact ⟨orderly.begun, orderly.fresh, orderly.earlier, orderly.exited, orderly.reported,
      orderly.state, orderly.announced, orderly.summary, orderly.removed⟩
  exact ⟨core.begun, core.fresh, core.earlier, core.exited, core.reported, core.state,
    core.announced, core.summary, core.removed⟩

theorem leaves_of_core {before after : Host} (same : after.core = before.core) (id : Process) :
    Leaves id before after := by
  have core : Leaves id before.core after.core := by
    rw [same]
    exact leaves_isRely.refl id _
  cases id <;> exact core

/-- What a process knows stays true when it does something of no consequence. -/
theorem safe_idle {serde : Serde} {id : Process} {action : Act} {host : Host}
    {next : Answer action → Task Phase} (known : Host → Prop)
    (stable : ∀ before after, Leaves id before after → known before → known after)
    (idle : action.idle = true) (holds : known host)
    (rest : ∀ now answer after, Orderly serde now → known now → Acts id action now answer after →
      Orderly serde after → known after →
      Safe Acts (Orderly serde) Leaves id (Between id) (next answer) after) :
    Safe Acts (Orderly serde) Leaves id (Between id) (Program.act action >>= next) host := by
  refine .act fun now answer after orderly moved acted => ?_
  have here := stable host now moved holds
  obtain ⟨choice, rule, result⟩ := acted
  have same := exec_idle idle result
  exact ⟨orderly.of_core same, fun other _ => leaves_of_core same other,
    rest now answer after orderly here ⟨choice, rule, result⟩ (orderly.of_core same)
      (stable now after (leaves_of_core same id) here)⟩

/-! ### The daemon -/

/-- The daemon runs, and has got this far. -/
structure Daemon (number : Nat) (announced : Bool) (flushed : Option Summary)
    (reported : Bool) (host : Host) : Prop where
  begun : number ∈ host.begun
  record : host.record number = (announced, flushed, reported, false)

namespace Daemon

variable {serde : Serde} {number : Nat} {announced reported : Bool} {flushed : Option Summary}
variable {host : Host}

theorem later {after : Host} (moved : Leaves (.daemon number) host after)
    (daemon : Daemon number announced flushed reported host) :
    Daemon number announced flushed reported after :=
  ⟨moved.1 daemon.begun, moved.2.trans daemon.record⟩

theorem mem_announced (daemon : Daemon number announced flushed reported host) :
    number ∈ host.announced ↔ announced = true := by
  have shown : decide (number ∈ host.announced) = announced :=
    congrArg (fun record => record.1) daemon.record
  rw [← shown, decide_eq_true_iff]

theorem mem_reported (daemon : Daemon number announced flushed reported host) :
    number ∈ host.reported ↔ reported = true := by
  have shown : decide (number ∈ host.reported) = reported :=
    congrArg (fun record => record.2.2.1) daemon.record
  rw [← shown, decide_eq_true_iff]

theorem flushed_eq (daemon : Daemon number announced flushed reported host) :
    host.flushed number = flushed := congrArg (fun record => record.2.1) daemon.record

/-- Only the last daemon has not written its summary. -/
theorem current (daemon : Daemon number announced flushed false host)
    (orderly : Orderly serde host) : host.current = number := by
  have last : ¬ number + 1 < host.spawned := fun earlier =>
    absurd (daemon.mem_reported.mp (orderly.earlier number earlier)) (by decide)
  have spawned := orderly.begun number daemon.begun
  unfold Host.current
  omega

/-- A file the last daemon has not yet written is created. -/
theorem create (daemon : Daemon number announced flushed false host) (orderly : Orderly serde host)
    (file : File) (unwritten : file = .state_json → announced = false) :
    Orderly serde (host.setFile file (some "")) ∧
      (∀ other, other ≠ .daemon number → Leaves other host (host.setFile file (some ""))) ∧
      Daemon number announced flushed false (host.setFile file (some "")) := by
  have isCurrent := daemon.current orderly
  have unreported : host.current ∉ host.reported := by
    rw [isCurrent, daemon.mem_reported]
    decide
  cases file with
  | state_json =>
    have unannounced : host.current ∉ host.announced := by
      rw [isCurrent, daemon.mem_announced, unwritten rfl]
      decide
    refine ⟨?_, ?_, daemon.begun, daemon.record⟩
    · exact
        { orderly with
          state := fun _ found => Or.inl (Option.some_inj.mp found).symm
          announced := fun there => absurd there unannounced
          summary := fun there => absurd there unreported }
    · rintro (_ | other) different
      · refine ⟨rfl, rfl, subset_rfl, subset_rfl, fun all => absurd (all _ ?_) unannounced,
          fun _ _ => rfl⟩
        exact isCurrent ▸ orderly.begun number daemon.begun
      · exact ⟨id, rfl⟩
  | summary_json =>
    refine ⟨?_, ?_, daemon.begun, daemon.record⟩
    · exact { orderly with summary := fun there => absurd there unreported }
    · rintro (_ | other) different
      · exact ⟨rfl, rfl, subset_rfl, subset_rfl, fun _ => rfl, fun _ _ => rfl⟩
      · exact ⟨id, rfl⟩

/-- The other daemons' records are left alone. -/
theorem leaves_other (before after : Host) (begun : after.begun = before.begun)
    (others : ∀ other, other ≠ number → after.record other = before.record other)
    (other : Nat) (different : Process.daemon other ≠ .daemon number) :
    Leaves (.daemon other) before after :=
  ⟨fun there => begun ▸ there, others other fun same => different (congrArg _ same)⟩

/-- The last daemon announces itself. -/
theorem announce (daemon : Daemon number false flushed false host) (orderly : Orderly serde host)
    (state : State) :
    let after := (host.setFile .state_json (some (serde.state_to_vec state))).wrote number
      .state_json
    Orderly serde after ∧ (∀ other, other ≠ .daemon number → Leaves other host after) ∧
      Daemon number true flushed false after := by
  intro after
  have isCurrent := daemon.current orderly
  have others : ∀ other, other ≠ number → after.record other = host.record other := by
    intro other different
    simp [Host.record, after, Host.wrote, Host.setFile, different]
  refine ⟨?_, ?_, daemon.begun, ?_⟩
  · exact
      { begun := orderly.begun
        fresh := fun other idle => (others other fun same => idle (same ▸ daemon.begun)).trans
          (orderly.fresh other idle)
        earlier := orderly.earlier
        exited := orderly.exited
        reported := orderly.reported.trans (Finset.subset_insert _ _)
        state := fun _ _ => Or.inr (isCurrent ▸ Finset.mem_insert_self _ _)
        announced := fun _ _ => ⟨state, rfl⟩
        summary := orderly.summary
        removed := orderly.removed }
  · rintro (_ | other) different
    · refine ⟨rfl, rfl, Finset.subset_insert _ _, subset_rfl, fun all => ?_, fun _ _ => rfl⟩
      have early := daemon.mem_announced.mp (all number (orderly.begun number daemon.begun))
      cases early
    · exact leaves_other host after rfl others other different
  · have record := daemon.record
    simp only [Host.record, Prod.mk.injEq] at record ⊢
    exact ⟨decide_eq_true (Finset.mem_insert_self _ _), record.2⟩

/-- The daemon flushes. -/
theorem flush (daemon : Daemon number announced flushed false host) (orderly : Orderly serde host)
    (summary : Summary) :
    let after := { host with flushed := Function.update host.flushed number (some summary) }
    Orderly serde after ∧ (∀ other, other ≠ .daemon number → Leaves other host after) ∧
      Daemon number announced (some summary) false after := by
  intro after
  have isCurrent := daemon.current orderly
  have others : ∀ other, other ≠ number → after.record other = host.record other := by
    intro other different
    simp [Host.record, after, different]
  refine ⟨?_, ?_, daemon.begun, ?_⟩
  · exact
      { orderly with
        fresh := fun other idle => (others other fun same => idle (same ▸ daemon.begun)).trans
          (orderly.fresh other idle)
        summary := fun there => by
          rw [show after.current = number from isCurrent] at there
          cases daemon.mem_reported.mp there
        removed := fun other there => by
          by_cases same : other = number
          · rw [same, show after.flushed number = some summary from Function.update_self ..]
            nofun
          · rw [show after.flushed other = host.flushed other from Function.update_of_ne same ..]
            exact orderly.removed other there }
  · rintro (_ | other) different
    · refine ⟨rfl, rfl, subset_rfl, subset_rfl, fun _ => rfl, fun other there => ?_⟩
      refine Function.update_of_ne ?_ ..
      rintro rfl
      cases daemon.mem_reported.mp there
    · exact leaves_other host after rfl others other different
  · have record := daemon.record
    simp only [Host.record, Prod.mk.injEq] at record ⊢
    exact ⟨record.1, Function.update_self .., record.2.2⟩

/-- The last daemon writes its summary. -/
theorem summarise {summary : Summary} (daemon : Daemon number true (some summary) false host)
    (orderly : Orderly serde host) :
    let after :=
      (host.setFile .summary_json (some (serde.summary_to_vec summary))).wrote number .summary_json
    Orderly serde after ∧ (∀ other, other ≠ .daemon number → Leaves other host after) ∧
      Daemon number true (some summary) true after := by
  intro after
  have isCurrent := daemon.current orderly
  have others : ∀ other, other ≠ number → after.record other = host.record other := by
    intro other different
    simp [Host.record, after, Host.wrote, Host.setFile, different]
  refine ⟨?_, ?_, daemon.begun, ?_⟩
  · exact
      { orderly with
        fresh := fun other idle => (others other fun same => idle (same ▸ daemon.begun)).trans
          (orderly.fresh other idle)
        earlier := fun other early => Finset.mem_insert_of_mem (orderly.earlier other early)
        exited := orderly.exited.trans (Finset.subset_insert _ _)
        reported := fun other there => by
          rcases Finset.mem_insert.mp there with rfl | there
          · exact daemon.mem_announced.mpr rfl
          · exact orderly.reported there
        summary := fun _ => by
          refine ⟨summary, ?_, rfl⟩
          rw [show after.current = number from isCurrent]
          exact daemon.flushed_eq }
  · rintro (_ | other) different
    · exact ⟨rfl, rfl, subset_rfl, Finset.subset_insert _ _, fun _ => rfl, fun _ _ => rfl⟩
    · exact leaves_other host after rfl others other different
  · have record := daemon.record
    simp only [Host.record, Prod.mk.injEq] at record ⊢
    exact ⟨record.1, record.2.1, decide_eq_true (Finset.mem_insert_self _ _), record.2.2.2⟩

/-- The daemon exits. -/
theorem exit (daemon : Daemon number announced flushed true host) (orderly : Orderly serde host) :
    let after := { host with exited := insert number host.exited }
    Orderly serde after ∧ ∀ other, other ≠ .daemon number → Leaves other host after := by
  intro after
  have others : ∀ other, other ≠ number → after.record other = host.record other := by
    intro other different
    simp [Host.record, after, different]
  refine ⟨?_, ?_⟩
  · exact
      { orderly with
        fresh := fun other idle => (others other fun same => idle (same ▸ daemon.begun)).trans
          (orderly.fresh other idle)
        exited := Finset.insert_subset (daemon.mem_reported.mpr rfl) orderly.exited }
  · rintro (_ | other) different
    · exact ⟨rfl, rfl, subset_rfl, subset_rfl, fun _ => rfl, fun _ _ => rfl⟩
    · exact leaves_other host after rfl others other different

/-- Writing a file, from what creating it and writing its bytes preserve. -/
theorem write_safe {file : File} {contents : String} {achieved : Host → Prop}
    (daemon : Daemon number announced flushed false host)
    (unwritten : file = .state_json → announced = false)
    (writes : ∀ now, Orderly serde now → Daemon number announced flushed false now →
      let after := (now.setFile file (some contents)).wrote number file
      Orderly serde after ∧ (∀ other, other ≠ .daemon number → Leaves other now after) ∧
        achieved after)
    (stable : ∀ before after, Leaves (.daemon number) before after → achieved before →
      achieved after) :
    Safe Acts (Orderly serde) Leaves (.daemon number) (fun ok now => ok = true ∧ achieved now)
      (write file contents) host := by
  unfold write
  refine .act fun now created after orderly moved acted => ?_
  obtain ⟨choice, ⟨timely, _⟩, result⟩ := acted
  obtain rfl : choice = .done true := timely
  cases result
  obtain ⟨keeps, tolerated, daemon⟩ := (daemon.later moved).create orderly file unwritten
  refine ⟨keeps, tolerated, ?_⟩
  intro now written after orderly moved acted
  obtain ⟨choice, ⟨timely, _⟩, result⟩ := acted
  obtain rfl : choice = .done true := timely
  cases result
  obtain ⟨keeps, tolerated, achieves⟩ := writes now orderly (daemon.later moved)
  exact ⟨keeps, tolerated, fun later _ moved => ⟨rfl, stable _ _ moved achieves⟩⟩

/-- The daemon keeps order. -/
theorem run_safe (daemon : Daemon number false none false host) :
    Safe Acts (Orderly serde) Leaves (.daemon number) (Between (.daemon number))
    (run serde) host := by
  have isRely := leaves_isRely
  unfold run
  refine safe_idle (Daemon number false none false) (fun _ _ => Daemon.later) rfl daemon
    fun _ made host _ _ _ holds daemon => ?_
  cases made with
  | false => exact fun _ _ _ => trivial
  | true =>
    refine safe_idle (Daemon number false none false) (fun _ _ => Daemon.later) rfl daemon
      fun _ state host _ _ _ holds daemon => ?_
    cases state with
    | none => exact fun _ _ _ => trivial
    | some state =>
      refine Safe.bind isRely holds (daemon.write_safe (fun _ => rfl)
        (fun now orderly daemon => daemon.announce orderly state) fun _ _ => Daemon.later) ?_
      rintro _ host _ ⟨rfl, daemon⟩
      refine safe_idle (Daemon number true none false) (fun _ _ => Daemon.later) rfl daemon
        fun _ served host _ _ _ holds daemon => ?_
      cases served with
      | false => exact fun _ _ _ => trivial
      | true =>
        refine .act fun now summary after orderly moved acted => ?_
        obtain ⟨choice, _, result⟩ := acted
        cases choice with
        | summary chosen =>
          cases result
          obtain ⟨keeps, tolerated, daemon⟩ := (daemon.later moved).flush orderly summary
          refine ⟨keeps, tolerated, Safe.bind isRely keeps (daemon.write_safe nofun
            (fun now orderly daemon => daemon.summarise orderly) fun _ _ => Daemon.later) ?_⟩
          rintro _ host _ ⟨rfl, daemon⟩
          refine .act fun now _ after orderly moved acted => ?_
          obtain ⟨choice, _, result⟩ := acted
          cases result
          obtain ⟨keeps, tolerated⟩ := (daemon.later moved).exit orderly
          exact ⟨keeps, tolerated, fun _ _ _ => trivial⟩
        | _ => cases result

end Daemon

/-! ### The job -/

section Job

variable {serde : Serde} {host before after : Host}

/-- Nothing is announced, and all daemons are done with their files. -/
structure Ready (host : Host) : Prop where
  clean : host.content .state_json = none
  announced : ∀ number < host.spawned, number ∈ host.announced
  reported : ∀ number < host.spawned, number ∈ host.reported

theorem Ready.later (moved : Leaves .job before after) (ready : Ready before) : Ready after := by
  obtain ⟨spawned, _, announced, reported, state, _⟩ := moved
  refine ⟨(state ready.announced).trans ready.clean, ?_, ?_⟩
  · exact fun number below => announced (ready.announced number (spawned ▸ below))
  · exact fun number below => reported (ready.reported number (spawned ▸ below))

theorem current_of_leaves (moved : Leaves .job before after) : after.current = before.current := by
  rw [Host.current, Host.current, moved.1]

theorem Running.later (moved : Leaves .job before after) (running : Running before) :
    Running after := by
  have same := current_of_leaves moved
  obtain ⟨_, removed, announced, _⟩ := moved
  exact ⟨same ▸ announced running.announced, same ▸ removed ▸ running.kept⟩

/-- The daemon has written its summary, which is this one. -/
structure Summarised (summary : Summary) (host : Host) : Prop where
  reported : host.current ∈ host.reported
  flushed : host.flushed host.current = some summary

theorem Summarised.later {summary : Summary} (moved : Leaves .job before after)
    (summarised : Summarised summary before) : Summarised summary after := by
  have same := current_of_leaves moved
  obtain ⟨_, _, _, reported, _, flushed⟩ := moved
  refine ⟨same ▸ reported summarised.reported, ?_⟩
  rw [same, flushed _ summarised.reported, summarised.flushed]

/-- `start` finds no daemon announced and spawns one. -/
theorem start_safe (ready : Ready host) :
    Safe Acts (Orderly serde) Leaves .job (Between .job) start host := by
  unfold start
  refine safe_idle Ready (fun _ _ => Ready.later) rfl ready fun now _ host _ here acted _ ready =>
    ?_
  obtain ⟨choice, _, result⟩ := acted
  cases result
  rw [here.clean]
  refine safe_idle Ready (fun _ _ => Ready.later) rfl ready fun now made host _ _ acted _ ready =>
    ?_
  obtain ⟨choice, ⟨timely, _⟩, result⟩ := acted
  obtain rfl : choice = .done true := timely
  cases result
  refine .act fun now spawned after orderly moved acted => ?_
  obtain ⟨choice, ⟨timely, _⟩, result⟩ := acted
  obtain rfl : choice = .done true := timely
  cases result
  have ready := ready.later moved
  have newest : ({ now with spawned := now.spawned + 1 } : Host).current = now.spawned := rfl
  have notBegun : now.spawned ∉ now.begun := fun there =>
    absurd (orderly.begun _ there) (lt_irrefl _)
  have fresh := orderly.fresh _ notBegun
  simp only [Host.record, Prod.mk.injEq, decide_eq_false_iff_not] at fresh
  refine ⟨?_, ?_, ?_⟩
  · exact
      { orderly with
        begun := fun number there => (orderly.begun number there).trans (Nat.lt_succ_self _)
        earlier := fun number early => ready.reported number (Nat.lt_of_succ_lt_succ early)
        state := fun _ found => by
          rw [show ({ now with spawned := now.spawned + 1 } : Host).content .state_json =
            none from ready.clean] at found
          cases found
        announced := fun there => absurd there fresh.1
        summary := fun there => absurd there fresh.2.2.1 }
  · rintro (_ | other) different
    · exact absurd rfl different
    · exact ⟨id, rfl⟩
  · intro later _ moved
    refine ⟨moved.1 ▸ Nat.succ_pos _, ?_⟩
    rw [current_of_leaves moved, moved.2.1, newest]
    exact fun there => orderly.removed _ there fresh.2.1

/-- A wait of `start` ends when the daemon has announced itself. -/
theorem wait_safe (lawful : serde.Lawful)
    (waiting : 0 < host.spawned ∧ host.current ∉ host.removed) :
    Safe Acts (Orderly serde) Leaves .job (Between .job) (wait_for_state serde) host := by
  have stable : ∀ before after, Leaves .job before after →
      (0 < before.spawned ∧ before.current ∉ before.removed) →
      0 < after.spawned ∧ after.current ∉ after.removed := by
    intro before after moved waiting
    rw [current_of_leaves moved, moved.1, moved.2.1]
    exact waiting
  unfold wait_for_state
  refine safe_idle _ stable rfl waiting fun now late host orderly here acted _ waiting => ?_
  obtain ⟨choice, ⟨timely, _⟩, result⟩ := acted
  cases choice with
  | passed chosen =>
    cases result
    cases late with
    | true =>
      have reported := orderly.exited (timely rfl)
      have running : Running now := ⟨orderly.reported reported, here.2⟩
      exact fun later _ moved => running.later moved
    | false =>
      refine safe_idle _ stable rfl waiting fun now contents host orderly here acted _ waiting => ?_
      obtain ⟨choice, _, result⟩ := acted
      cases result
      cases found : now.content .state_json with
      | none => exact fun later _ moved => stable _ _ moved here
      | some contents =>
        dsimp only
        cases parsed : serde.state_from_str contents with
        | none => exact fun later _ moved => stable _ _ moved here
        | some state =>
          have running : Running now := by
            rcases orderly.state contents found with rfl | announced
            · rw [lawful.empty] at parsed
              cases parsed
            · exact ⟨announced, here.2⟩
          refine safe_idle Running (fun _ _ => Running.later) rfl running
            fun now _ host _ _ _ _ running => ?_
          refine safe_idle Running (fun _ _ => Running.later) rfl running
            fun now _ host _ _ _ _ running => ?_
          exact fun later _ moved => running.later moved
  | _ => cases result

/-- `stop` reads what the daemon announced, and asks it to shut down. -/
theorem stop_safe (lawful : serde.Lawful) (running : Running host) :
    Safe Acts (Orderly serde) Leaves .job (Between .job) (stop serde) host := by
  unfold stop
  refine safe_idle Running (fun _ _ => Running.later) rfl running
    fun now contents host orderly here acted _ running => ?_
  obtain ⟨choice, _, result⟩ := acted
  cases result
  obtain ⟨state, found⟩ := orderly.announced here.announced here.kept
  rw [found]
  dsimp only
  rw [lawful.state]
  refine safe_idle Running (fun _ _ => Running.later) rfl running
    fun now _ host _ _ _ _ running => ?_
  exact fun later _ moved => running.later moved

/-- The clean-up of `stop`, when the daemon has written its summary. -/
theorem clean_up_safe {summary : Summary} (summarised : Summarised summary host) :
    Safe Acts (Orderly serde) Leaves .job (Between .job) (clean_up (some summary)) host := by
  unfold clean_up
  refine safe_idle (Summarised summary) (fun _ _ => Summarised.later) rfl summarised
    fun now _ host _ _ _ _ summarised => ?_
  refine safe_idle (Summarised summary) (fun _ _ => Summarised.later) rfl summarised
    fun now _ host _ _ _ _ summarised => ?_
  refine .act fun now _ after orderly moved acted => ?_
  obtain ⟨choice, ⟨timely, _⟩, result⟩ := acted
  obtain rfl : choice = .done true := timely
  cases result
  have summarised := summarised.later moved
  refine ⟨?_, ?_, ?_⟩
  · exact
      { orderly with
        announced := fun _ kept => absurd (Finset.mem_insert_self _ _) kept
        removed := fun number there => by
          rcases Finset.mem_insert.mp there with rfl | there
          · rw [show _ = some summary from summarised.flushed]
            nofun
          · exact orderly.removed number there }
  · rintro (_ | other) different
    · exact absurd rfl different
    · exact ⟨id, rfl⟩
  refine .act fun later _ after orderly moved acted => ?_
  obtain ⟨choice, ⟨timely, _⟩, result⟩ := acted
  obtain rfl : choice = .done true := timely
  cases result
  have removed : later.current ∈ later.removed := by
    rw [current_of_leaves moved, moved.2.1]
    exact Finset.mem_insert_self _ _
  have summarised : Summarised summary later :=
    Summarised.later moved ⟨summarised.reported, summarised.flushed⟩
  refine ⟨?_, ?_, ?_⟩
  · exact
      { orderly with
        state := fun _ found => by cases found
        announced := fun _ kept => absurd removed kept }
  · rintro (_ | other) different
    · exact absurd rfl different
    · exact ⟨id, rfl⟩
  have ready : Ready (later.setFile .state_json none) := by
    have reported : ∀ number < later.spawned, number ∈ later.reported := by
      intro number below
      by_cases last : number + 1 < later.spawned
      · exact orderly.earlier number last
      · have same : number = later.current := by
          unfold Host.current
          omega
        exact same ▸ summarised.reported
    exact ⟨rfl, fun number below => orderly.reported (reported number below), reported⟩
  intro now _ moved
  have ended := ready.later moved
  exact ⟨ended.clean, ended.reported, summary, rfl,
    (Summarised.later moved ⟨summarised.reported, summarised.flushed⟩).flushed⟩

/-- What `stop` does once the daemon has written its summary. -/
theorem report_safe (lawful : serde.Lawful) (reported : host.current ∈ host.reported) :
    Safe Acts (Orderly serde) Leaves .job (Between .job) (report serde) host := by
  unfold report
  have stable : ∀ before after, Leaves .job before after → before.current ∈ before.reported →
      after.current ∈ after.reported := by
    intro before after moved reported
    rw [current_of_leaves moved]
    exact moved.2.2.2.1 reported
  refine safe_idle _ stable rfl reported fun now contents host orderly here acted holds reported =>
    ?_
  obtain ⟨choice, _, result⟩ := acted
  cases result
  obtain ⟨summary, flushed, found⟩ := orderly.summary here
  rw [found]
  dsimp only
  rw [lawful.summary]
  exact clean_up_safe ⟨here, flushed⟩

/-- A round of the wait of `stop`. -/
theorem poll_safe (lawful : serde.Lawful) (running : Running host) :
    Safe Acts (Orderly serde) Leaves .job (Between .job) (poll serde) host := by
  unfold poll
  refine safe_idle Running (fun _ _ => Running.later) rfl running
    fun now late host orderly here acted _ running => ?_
  obtain ⟨choice, ⟨timely, _⟩, result⟩ := acted
  cases choice with
  | passed chosen =>
    cases result
    cases late with
    | true => exact report_safe lawful (orderly.exited (timely rfl))
    | false =>
      refine safe_idle Running (fun _ _ => Running.later) rfl running
        fun now there host orderly here acted _ running => ?_
      obtain ⟨choice, ⟨_, settled⟩, result⟩ := acted
      cases result
      cases found : now.content .summary_json with
      | none => exact fun later _ moved => running.later moved
      | some contents =>
        rcases settled rfl with absent | reported
        · rw [found] at absent
          cases absent
        · exact report_safe lawful reported
  | _ => cases result

end Job

/-! ### Every run -/

/-- A step of the job. -/
def Alone (event : Event Process Choice Unit) : Prop := ∃ choice, event = .run .job choice

/-- `stop` has come to its end. -/
def Stopped (config : Config Act Answer Process Host Phase) : Prop :=
  ∃ report, config.tasks .job = some (.finish (.stopped report))

/-- Where a run has come to, `stop` has ended only by cleaning up, with the summary of the daemon of
its cycle; objects have been removed only where the daemon's flush was over; and a `stop` that waits
for a daemon that has exited is bound to get to its end by itself. -/
structure Sound (serde : Serde) (config : Config Act Answer Process Host Phase) : Prop where
  stopped : ∀ report, config.tasks .job = some (.finish (.stopped report)) →
    ∃ summary, report = .cleaned (some summary) ∧
      config.shared.flushed config.shared.current = some summary
  removed : ∀ number ∈ config.shared.removed, config.shared.flushed number ≠ none
  finishes : config.tasks .job = some (.finish .polling) →
    config.shared.current ∈ config.shared.exited → (machine serde).Inevitable Alone Stopped config

/-- A program of the job that nothing blocks and that ends with the end of `stop`. -/
def Stops : Task Phase → Prop
  | .finish phase => ∃ report, phase = .stopped report
  | .perform action next =>
      (∀ host, ∃ choice answer after, Host.exec .job action choice host = some (answer, after)) ∧
        ∀ answer, Stops (next answer)

section Inevitable

variable {serde : Serde} {config : Config Act Answer Process Host Phase}

/-- The job is at an action that can be performed: what is bound to follow is what follows however
it is answered. -/
theorem inevitable_of_acts {action : Act} {next : Answer action → Task Phase}
    (task : config.tasks .job = some (.perform action next))
    (able : ∃ choice answer after,
      Host.exec .job action choice config.shared = some (answer, after))
    (bound : ∀ choice answer after,
      Host.exec .job action choice config.shared = some (answer, after) →
        (machine serde).Inevitable Alone Stopped
          ⟨after, Function.update config.tasks .job (some (next answer))⟩) :
    (machine serde).Inevitable Alone Stopped config := by
  obtain ⟨choice, answer, after, result⟩ := able
  refine .later ⟨.run .job choice, _, ⟨choice, rfl⟩,
    (Machine.step_eq_some_iff ..).mpr (.acted task result)⟩ ?_
  rintro _ later ⟨choice, rfl⟩ stepped
  cases (Machine.step_eq_some_iff ..).mp stepped with
  | acted found result =>
    rw [task] at found
    cases found
    exact bound _ _ _ result
  | looped found _ =>
    rw [task] at found
    cases found

/-- The job is bound to get to the end of such a program. -/
theorem Stops.inevitable {program : Task Phase} (stops : Stops program)
    (task : config.tasks .job = some program) :
    (machine serde).Inevitable Alone Stopped config := by
  induction program generalizing config with
  | finish phase =>
    obtain ⟨report, rfl⟩ := stops
    exact .now ⟨report, task⟩
  | perform action next inductionHypothesis =>
    refine inevitable_of_acts task (stops.1 config.shared) fun choice answer after _ => ?_
    exact inductionHypothesis answer (stops.2 answer) rfl

theorem clean_up_stops (summary : Option Summary) : Stops (clean_up summary) :=
  ⟨fun _ => ⟨.quiet, _, _, rfl⟩, fun _ => ⟨fun _ => ⟨.done true, _, _, rfl⟩, fun _ =>
    ⟨fun _ => ⟨.done true, _, _, rfl⟩, fun _ => ⟨fun _ => ⟨.done true, _, _, rfl⟩, fun _ =>
      ⟨_, rfl⟩⟩⟩⟩⟩

theorem report_stops (serde : Serde) : Stops (report serde) := by
  refine ⟨fun _ => ⟨.quiet, _, _, rfl⟩, fun contents => ?_⟩
  cases contents with
  | none => exact clean_up_stops none
  | some contents =>
    simp only [Program.bind]
    cases serde.summary_from_str contents with
    | none => exact ⟨_, rfl⟩
    | some summary => exact clean_up_stops (some summary)

/-- A `stop` that waits gets to its end when the summary is there, in the round it is in: by the
deadline or by what it looks for. -/
theorem polling_inevitable (polling : config.tasks .job = some (.finish .polling))
    (there : (config.shared.content .summary_json).isSome = true) :
    (machine serde).Inevitable Alone Stopped config := by
  refine .later ⟨.run .job .quiet, _, ⟨.quiet, rfl⟩,
    (Machine.step_eq_some_iff ..).mpr (.looped polling rfl)⟩ ?_
  rintro _ middle ⟨choice, rfl⟩ stepped
  cases (Machine.step_eq_some_iff ..).mp stepped with
  | acted found _ =>
    rw [polling] at found
    cases found
  | looped found round =>
    rw [polling] at found
    cases found
    cases round
    refine @inevitable_of_acts serde _ .past_deadline _ rfl ⟨.passed true, _, _, rfl⟩ ?_
    intro choice late after result
    cases choice with
    | passed chosen =>
      cases result
      cases late with
      | true => exact (report_stops serde).inevitable rfl
      | false =>
        refine @inevitable_of_acts serde _ (.exists_ .summary_json) _ rfl ⟨.quiet, _, _, rfl⟩ ?_
        intro choice found after result
        cases result
        rw [there]
        exact (report_stops serde).inevitable rfl
    | _ => cases result

end Inevitable

theorem guards {serde : Serde} (lawful : serde.Lawful) :
    Guards (machine serde)
      (Keeping fun host action choice => Timely host action choice ∧ Settled host action)
      Acts (Orderly serde) Leaves Between where
  isRely := leaves_isRely
  acted := fun _ _ choice _ _ _ _ permitted _ task result =>
    ⟨choice, permitted _ _ task, result⟩
  looped := by
    intro id phase program host orderly between round
    cases id with
    | daemon number => cases phase <;> cases round
    | job =>
      cases phase with
      | waiting =>
        cases round
        exact wait_safe lawful between
      | started =>
        cases round
        exact stop_safe lawful between
      | failed =>
        cases round
        exact stop_safe lawful between
      | polling =>
        cases round
        exact poll_safe lawful between
      | stopped report =>
        cases round
        obtain ⟨clean, reported, _⟩ := between
        exact start_safe ⟨clean, fun number below => orderly.reported (reported number below),
          reported⟩
      | ended => cases round
  arrived := by
    intro config id arrival program after permitted guarded result
    cases id with
    | job => cases result
    | daemon number =>
      simp only [machine, accept] at result
      split at result
      · rename_i spawned
        cases result
        have orderly := guarded.shared
        refine ⟨?_, ?_, ?_⟩
        · exact
            { orderly with
              begun := fun other there => by
                rcases Finset.mem_insert.mp there with rfl | there
                · exact spawned.1
                · exact orderly.begun other there
              fresh := fun other idle =>
                orderly.fresh other fun there => idle (Finset.mem_insert_of_mem there) }
        · rintro (_ | other) different
          · exact ⟨rfl, rfl, subset_rfl, subset_rfl, fun _ => rfl, fun _ _ => rfl⟩
          · exact ⟨Finset.mem_insert_of_mem, rfl⟩
        · exact Daemon.run_safe ⟨Finset.mem_insert_self _ _, orderly.fresh number spawned.2⟩
      · cases result

theorem idle_orderly (serde : Serde) (summary : Option String) :
    Guarded Acts (Orderly serde) Leaves Between (idle summary) := by
  refine ⟨?_, ?_⟩
  · exact
      { begun := nofun
        fresh := fun number _ => rfl
        earlier := nofun
        exited := subset_rfl
        reported := subset_rfl
        state := nofun
        announced := nofun
        summary := nofun
        removed := nofun }
  · intro id program task
    cases id with
    | job =>
      cases task
      exact start_safe ⟨rfl, nofun, nofun⟩
    | daemon number => cases task

/-- When the wait of `stop` never ends on a summary that its daemon has not written, or not yet all
of, `stop` always reports that daemon's summary and cleans up, after the flush. -/
theorem stop_sound {serde : Serde} (lawful : serde.Lawful) (summary : Option String)
    {after : Config Act Answer Process Host Phase}
    (reached : (machine serde).Reaches
      (Keeping fun host action choice => Timely host action choice ∧ Settled host action)
      (idle summary) after) : Sound serde after := by
  have guarded := (idle_orderly serde summary).reaches (guards lawful) reached
  refine ⟨fun report ended => ?_, guarded.shared.removed, fun polling exited => ?_⟩
  · exact (guarded.finished leaves_isRely ended).2.2
  · obtain ⟨_, _, found⟩ := guarded.shared.summary (guarded.shared.exited exited)
    refine polling_inevitable polling ?_
    rw [found]
    rfl

/-! ### A second cycle -/

instance : Countable State := by
  have chars : Countable Char := Function.Injective.countable (f := fun char : Char => char.toNat)
    fun _ _ same => Char.val_inj.mp (UInt32.toNat_inj.mp same)
  have strings : Countable String := Function.Injective.countable (f := String.toList)
    fun _ _ same => String.toList_inj.mp same
  refine Function.Injective.countable (f := fun state : State =>
    (state.pid, state.port.toNat, state.ca_path, state.bundle_path, state.log_path)) ?_
  intro first second same
  cases first
  cases second
  simp only [Prod.mk.injEq, State.mk.injEq] at same ⊢
  exact ⟨same.1, UInt16.toNat_inj.mp same.2.1, same.2.2⟩

instance : Countable Summary := by
  refine Function.Injective.countable (f := fun stats : Summary =>
    [stats.requests, stats.hits, stats.misses, stats.stored, stats.passthrough, stats.errors,
      stats.bytes_from_cache, stats.bytes_from_network, stats.bytes_uploaded, stats.entries_stored,
      stats.packed, stats.packed_bytes, stats.uploads_failed, stats.upstream_millis]) ?_
  intro first second same
  cases first
  cases second
  simp only [List.cons.injEq, and_true, Summary.mk.injEq] at same ⊢
  exact same

/-- What a daemon announces. -/
def exampleState (pid : Nat) : State where
  pid := pid
  port := 8080
  ca_path := "/tmp/cicache/ca.pem"
  bundle_path := "/tmp/cicache/bundle.pem"
  log_path := "/tmp/cicache/requests.log"

/-- Its text. -/
def exampleText (pid : Nat) : String :=
  "\x7b\n  \"pid\": " ++ Nat.repr pid ++ ",\n  \"port\": 8080,\n" ++
    "  \"ca_path\": \"/tmp/cicache/ca.pem\",\n" ++
    "  \"bundle_path\": \"/tmp/cicache/bundle.pem\",\n" ++
    "  \"log_path\": \"/tmp/cicache/requests.log\"\n\x7d"

/-- The serialisers, which are known on what two daemons announce and on an empty summary. -/
noncomputable def exampleSerde : Serde where
  state_to_vec := printed [(exampleState 100, exampleText 100), (exampleState 101, exampleText 101)]
  state_from_str := parsed [(exampleState 100, exampleText 100),
    (exampleState 101, exampleText 101)]
  summary_to_vec := printed [(Summary.default, Summary.default.pretty)]
  summary_from_str := parsed [(Summary.default, Summary.default.pretty)]

theorem exampleSerde_lawful : exampleSerde.Lawful := by
  have states : Distinct
      [(exampleState 100, exampleText 100), (exampleState 101, exampleText 101)] :=
    ⟨by decide +kernel, by decide +kernel⟩
  have summaries : Distinct [(Summary.default, Summary.default.pretty)] :=
    ⟨by decide +kernel, by decide +kernel⟩
  exact ⟨parsed_printed states, parsed_empty states, parsed_printed summaries⟩

/-- A daemon from its spawning to its announcement, and a `start` that sees it. -/
def startEvents (number : Nat) : List (Event Process Choice Unit) :=
  [.run .job .quiet, .run .job (.done true), .run .job (.done true), .arrive (.daemon number) (),
    .run (.daemon number) (.done true),
    .run (.daemon number) (.state (some (exampleState (100 + number)))),
    .run (.daemon number) (.done true), .run (.daemon number) (.done true),
    .run .job .quiet, .run .job (.passed false), .run .job .quiet, .run .job (.done true),
    .run .job (.done true)]

/-- A `stop` up to its request, and the daemon from there. -/
def requestEvents (number : Nat) : List (Event Process Choice Unit) :=
  [.run .job .quiet, .run .job .quiet, .run .job (.reached (some number)),
    .run (.daemon number) .quiet]

def exitEvents (number : Nat) : List (Event Process Choice Unit) :=
  [.run (.daemon number) (.summary .default), .run (.daemon number) (.done true),
    .run (.daemon number) (.done true), .run (.daemon number) .quiet]

/-- The rest of a `stop` that sees a summary, to the removal of the objects. -/
def removeEvents : List (Event Process Choice Unit) :=
  [.run .job .quiet, .run .job (.passed false), .run .job .quiet, .run .job .quiet,
    .run .job .quiet, .run .job (.done true), .run .job (.done true)]

instance (host : Host) (action : Act) (choice : Choice) : Decidable (Timely host action choice) :=
  match action with
  | .create _ | .write _ _ | .remove_file _ | .create_objects | .remove_objects | .spawn =>
      inferInstanceAs (Decidable (choice = .done true))
  | .set_up => inferInstanceAs (Decidable (choice ≠ .state none))
  | .serve => inferInstanceAs (Decidable (choice ≠ .done false))
  | .past_deadline =>
      inferInstanceAs (Decidable (choice = .passed true → host.current ∈ host.exited))
  | .exists_ _ | .read_to_string _ | .write_curlrc | .clear_curlrc | .install_system_trust
  | .remove_system_trust | .flush | .exit | .post_shutdown _ => isTrue trivial

instance (host : Host) (action : Act) : Decidable (Settled host action) :=
  match action with
  | .exists_ .summary_json => decidable_of_iff
      (host.content .summary_json = none ∨ host.current ∈ host.reported)
      ⟨fun holds _ => holds, fun settled => settled rfl⟩
  | .exists_ .state_json | .read_to_string _ | .create _ | .write _ _ | .remove_file _
  | .create_objects | .remove_objects | .spawn | .past_deadline | .write_curlrc | .clear_curlrc
  | .install_system_trust | .remove_system_trust | .set_up | .serve | .flush | .exit
  | .post_shutdown _ => isTrue nofun

/-- The check that a step keeps to a rule. -/
def checked (rule : Host → Act → Choice → Prop)
    [∀ host action choice, Decidable (rule host action choice)]
    (config : Config Act Answer Process Host Phase) : Event Process Choice Unit → Bool
  | .run id choice =>
      match config.tasks id with
      | some (.perform action _) => decide (rule config.shared action choice)
      | _ => true
  | .arrive _ _ => true

theorem keeping_of_checked {rule : Host → Act → Choice → Prop}
    [∀ host action choice, Decidable (rule host action choice)]
    (config : Config Act Answer Process Host Phase) (event : Event Process Choice Unit)
    (passed : checked rule config event = true) : Keeping rule config event := by
  cases event with
  | arrive id arrival => trivial
  | run id choice =>
    intro action next task
    simp only [checked, task] at passed
    exact of_decide_eq_true passed

set_option maxRecDepth 20000 in
/-- The first cycle ends well when the daemon is done before `stop` looks for its summary. -/
theorem stop_sound_first : ∃ after : Config Act Answer Process Host Phase,
    after.tasks .job = some (.finish (.stopped (.cleaned (some .default)))) ∧
      Sound exampleSerde after := by
  have ran : (machine exampleSerde).runChecked
      (checked fun host action choice => Timely host action choice ∧ Settled host action)
        (idle none)
      (startEvents 0 ++ requestEvents 0 ++ exitEvents 0 ++ removeEvents ++
        [.run .job (.done true)]) =
        some _ := rfl
  exact ⟨_, rfl, stop_sound exampleSerde_lawful none
    (Machine.Reaches.of_runChecked keeping_of_checked ran)⟩

set_option maxRecDepth 20000 in
/-- In the second cycle, `stop` finds the summary of the first and removes the objects before the
flush. -/
theorem stop_unsound :
    ¬ ∀ (serde : Serde), serde.Lawful → ∀ (summary : Option String)
      (after : Config Act Answer Process Host Phase),
      (machine serde).Reaches (Keeping Timely) (idle summary) after → Sound serde after := by
  intro always
  have ran : (machine exampleSerde).runChecked (checked Timely) (idle none)
      (startEvents 0 ++ requestEvents 0 ++ exitEvents 0 ++ removeEvents ++
        [.run .job (.done true), .run .job .quiet] ++ startEvents 1 ++ requestEvents 1 ++
        removeEvents) = some _ := rfl
  have sound := always exampleSerde exampleSerde_lawful none _
    (Machine.Reaches.of_runChecked keeping_of_checked ran)
  exact sound.removed 1 (Finset.mem_insert_self _ _) rfl

end Command

end Cicache
