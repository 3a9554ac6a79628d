/-
This file follows what is on local disk to the gets that find it there. An object comes to its file
from a `put`, from the pack or from a `get` that fetched it. Where every write of the file is of
these bytes and succeeds, a write that has ended stays: whoever asks for the object from then on is
given it, by one look at the disk, and the service is not asked.
-/

import Cicache.Shipped
import Cicache.Lib.Arrivals

namespace Cicache

open Text Interleaving Program

/-- Nor does a read of the file fail when there is one. -/
def readsBack (path : String) (bytes : Bytes) (before : World) : Done Act Answer → Bool
  | ⟨.read other, found⟩ => other ≠ path ||
      ((before.files path).writing = [] && (found.isSome || (before.files path).content = none))
  | done => writesWhole path bytes before done

theorem writesWhole_of_readsBack {path : String} {bytes : Bytes} {before : World}
    {done : Done Act Answer} (reads : readsBack path bytes before done = true) :
    writesWhole path bytes before done = true := by
  unfold readsBack at reads
  split at reads
  · rfl
  · exact reads

/-- A write of the file has ended. -/
def Ended (path : String) (past : List (TaskId × Done Act Answer)) : Prop :=
  ∃ id bytes ok, (id, ⟨.write_end path bytes, ok⟩) ∈ past

section Step

variable {path : String} {bytes : Bytes} {id : TaskId}
variable {action : Act} {choice : Choice} {before after : World} {answer : Answer action}

/-- A file that is written whole holds its bytes when a write of it ends, and keeps them. -/
theorem holds_step (whole : writesWhole path bytes before ⟨action, answer⟩ = true)
    (result : World.exec id action choice before = some (answer, after))
    (held : (before.files path).content = some bytes ∨
      ∃ written, action = .write_end path written) :
    (after.files path).content = some bytes := by
  rcases exec_file result path with ⟨same, other⟩ | ⟨written, ok, left, performed, holds, -, all⟩
  · rcases held with held | ⟨written, ends⟩
    · rw [same, held]
    · exact absurd ends (other written)
  · rw [performed] at whole
    obtain ⟨rfl, succeeded⟩ := whole_of_ended whole
    rw [holds, all succeeded]

/-- A read of the file finds what it holds. -/
theorem read_found (id : TaskId) {found : Option Bytes}
    (reads : readsBack path bytes before ⟨.read path, found⟩ = true)
    (result : World.exec id (.read path) choice before = some (found, after))
    (held : (before.files path).content = some bytes) : found = some bytes := by
  have parts : (before.files path).writing = [] ∧ found.isSome = true := by
    simpa [readsBack, held] using reads
  obtain ⟨idle, some⟩ := parts
  obtain ⟨body, rfl⟩ := Option.isSome_iff_exists.mp some
  cases choice with
  | contents result' =>
    simp only [World.exec] at result
    split at result
    · rename_i readable
      cases result
      exact congrArg _ (Complete.eq (Or.inr held) idle readable)
    · cases result
  | _ => cases result

end Step

section Run

variable {crates : Crates} {proxy : Proxy} {path : String} {bytes : Bytes}
variable {start middle after : Config Act Answer TaskId World Value}
variable {front back events : List (Event TaskId Choice Arrival)}

theorem holds_of_run (ran : (Job.machine crates proxy).run start events = some after)
    (whole : (Job.machine crates proxy).Performing (writesWhole path bytes · · = true) start events)
    (ended : Ended path ((Job.machine crates proxy).history start events)) :
    (after.shared.files path).content = some bytes := by
  have begins : Ended path [] → (start.shared.files path).content = some bytes := by
    rintro ⟨_, _, _, ⟨⟩⟩
  refine whole.preserves ran
    (fun past world => Ended path past → (world.files path).content = some bytes) ?_ ?_ begins ended
  · rintro past id action choice before answer shared held whole result
      ⟨writer, written, ok, member⟩
    refine holds_step whole result ?_
    rcases List.mem_append.mp member with earlier | now
    · exact Or.inl (held ⟨writer, written, ok, earlier⟩)
    · cases List.mem_singleton.mp now
      exact Or.inr ⟨written, rfl⟩
  · intro past id arrival before program shared held result
    rcases Job.accept_cases crates proxy result with ⟨_, _, _, rfl⟩ | ⟨_, _, _, _, _, _, rfl⟩ |
      ⟨_, _, _, _, _, _, _, _, rfl⟩ <;> exact held

/-- What a file holds is what all find who read it. -/
theorem found_of_holds (ran : (Job.machine crates proxy).run start events = some after)
    (works : (Job.machine crates proxy).Performing (readsBack path bytes · · = true) start events)
    (held : (start.shared.files path).content = some bytes) {id : TaskId} {found : Option Bytes}
    (read : (id, ⟨.read path, found⟩) ∈ (Job.machine crates proxy).history start events) :
    found = some bytes := by
  have kept := works.preserves ran
    (fun past world => (world.files path).content = some bytes ∧
      ∀ id found, (id, ⟨.read path, found⟩) ∈ past → found = some bytes) ?_ ?_
    ⟨held, fun _ _ none => absurd none List.not_mem_nil⟩
  · exact kept.2 id found read
  · rintro past id action choice before answer shared ⟨held, kept⟩ reads result
    refine ⟨holds_step (writesWhole_of_readsBack reads) result (Or.inl held),
      fun other found member => ?_⟩
    rcases List.mem_append.mp member with earlier | now
    · exact kept other found earlier
    · cases List.mem_singleton.mp now
      exact read_found id reads result held
  · intro past id arrival before program shared kept result
    rcases Job.accept_cases crates proxy result with ⟨_, _, _, rfl⟩ | ⟨_, _, _, _, _, _, rfl⟩ |
      ⟨_, _, _, _, _, _, _, _, rfl⟩ <;> exact kept

/-- A `get` that finds the file is over with it. -/
theorem get_found {key : String} {trail : Trail} {rest : Task Value}
    (takes : (yields (proxy.store.get crates key) Value.object).Takes trail rest)
    (finds : ∀ found, ⟨.read (proxy.store.path key), found⟩ ∈ trail → found = some bytes) :
    (trail = [] ∧ rest = yields (proxy.store.get crates key) Value.object) ∨
      trail = [⟨.read (proxy.store.path key), some bytes⟩] ∧
        rest = .finish (.object (some bytes)) := by
  obtain ⟨next, begins, returns⟩ : ∃ next : Option Bytes → Task Value,
      yields (proxy.store.get crates key) Value.object =
          .perform (.read (proxy.store.path key)) next ∧
        ∀ bytes, next (some bytes) = .finish (.object (some bytes)) := ⟨_, rfl, fun _ => rfl⟩
  rw [begins] at takes ⊢
  cases takes with
  | here => exact Or.inl ⟨rfl, rfl⟩
  | @step _ _ answer trail _ later =>
    obtain rfl := finds answer List.mem_cons_self
    rw [returns] at later
    cases later
    exact Or.inr ⟨rfl, rfl⟩

/-- Once a write of an object's file has ended, by whichever task and from wherever it had the
bytes, whoever reads the file finds these bytes, a request's `get` of the object too; and a `get`
that is asked for from then on has done nothing yet, or has read the file, and nothing else, and
returned them: in every order of the job's actions, where every write of the file is of these bytes
and succeeds or is not begun, and the disk can be read. -/
theorem served_locally {key : String}
    (ranFront : (Job.machine crates proxy).run start front = some middle)
    (whole : (Job.machine crates proxy).Performing
      (writesWhole (proxy.store.path key) bytes · · = true) start front)
    (ended : Ended (proxy.store.path key) ((Job.machine crates proxy).history start front))
    (ran : (Job.machine crates proxy).run middle back = some after)
    (works : (Job.machine crates proxy).Performing
      (readsBack (proxy.store.path key) bytes · · = true) middle back) :
    (∀ id found, (id, ⟨.read (proxy.store.path key), found⟩) ∈
        (Job.machine crates proxy).history middle back → found = some bytes) ∧
    ∀ number, .arrive (.call number) (.get key) ∈ back →
      (pathOf (.call number) ((Job.machine crates proxy).history middle back) = [] ∧
        after.tasks (.call number) =
          some (yields (proxy.store.get crates key) Value.object)) ∨
      pathOf (.call number) ((Job.machine crates proxy).history middle back) =
          [⟨.read (proxy.store.path key), some bytes⟩] ∧
        after.tasks (.call number) = some (.finish (.object (some bytes))) := by
  have held := holds_of_run ranFront whole ended
  have found : ∀ id found, (id, ⟨.read (proxy.store.path key), found⟩) ∈
      (Job.machine crates proxy).history middle back → found = some bytes :=
    fun _ _ read => found_of_holds ran works held read
  refine ⟨found, fun number asked => ?_⟩
  obtain ⟨rest, came⟩ := Machine.came_of_mem ran
    (@again_eq_none crates proxy (.call number) (by rintro ⟨⟩)) asked
  obtain ⟨now, program, shared, accepted, takes⟩ := came.takes
  cases accepted
  rw [came.task, Option.some_inj, Option.some_inj]
  exact get_found takes fun read member => found _ read (mem_pathOf.mp member)

end Run

/-- A `get` of the object that was put. -/
def askRuns : List (Event TaskId Choice Arrival) :=
  [.arrive (.call 2) (.get "t-0"), .run (.call 2) (.contents (some [0x78, 0x79]))]

set_option maxRecDepth 8000 in
theorem served_locally_asked : ∃ middle after,
    (Job.machine (.ofSamples acceptingSamples) exampleProxy).run
      (Job.idle exampleProxy (Job.fresh exampleProxy .empty [])) (storeRuns none) = some middle ∧
    (Job.machine (.ofSamples acceptingSamples) exampleProxy).run middle askRuns = some after ∧
    pathOf (.call 2) ((Job.machine (.ofSamples acceptingSamples) exampleProxy).history middle
      askRuns) = [⟨.read "/tmp/cicache/objects/t-0", some [0x78, 0x79]⟩] ∧
    after.tasks (.call 2) = some (.finish (.object (some [0x78, 0x79]))) := by
  obtain ⟨ranFront, whole⟩ := @Machine.Performing.of_runChecked _ _ _ _ _ _ _ _
    (Job.machine (.ofSamples acceptingSamples) exampleProxy)
    (Job.idle exampleProxy (Job.fresh exampleProxy .empty [])) _ (storeRuns none)
    (writesWhole "/tmp/cicache/objects/t-0" [0x78, 0x79]) rfl
  have ended : Ended "/tmp/cicache/objects/t-0"
      ((Job.machine (.ofSamples acceptingSamples) exampleProxy).history
        (Job.idle exampleProxy (Job.fresh exampleProxy .empty [])) (storeRuns none)) :=
    ⟨.call 0, [0x78, 0x79], true, mem_pathOf.mp (List.mem_of_getElem? (i := 2) rfl)⟩
  have gets := @served_locally (.ofSamples acceptingSamples) exampleProxy [0x78, 0x79] _ _ _ _
    askRuns "t-0" ranFront whole ended rfl (@Machine.Performing.of_runChecked _ _ _ _ _ _ _ _ _ _ _
      _ (readsBack "/tmp/cicache/objects/t-0" [0x78, 0x79]) rfl).2
  rcases gets.2 2 List.mem_cons_self with ⟨none, -⟩ | ⟨path, ends⟩
  · cases none
  · exact ⟨_, _, ranFront, rfl, path, ends⟩

end Cicache
