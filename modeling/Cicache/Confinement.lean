/-
This file settles where unpacking a pack writes. The keys of a pack are whatever its bytes say;
they are joined to the directory of the job's objects and written to without a check, so a key
that is absolute, that climbs out of the directory or that names a place further down takes the
file there.
-/

import Cicache.System

namespace Cicache

open Text Interleaving Path

/-- The action of starting to write a file. -/
def WritesTo (path : String) (action : Act) : Prop := ∃ bytes, action = .write_begin path bytes

namespace Store

variable {store : Store}

/-- Unpacking writes a file for every object, at its key's path, and no other. -/
theorem unpack_mayPerform_iff (path : String) (objects : List Pack.Object) :
    (store.unpack objects).MayPerform (WritesTo path) ↔
      ∃ object ∈ objects, store.path object.1 = path := by
  induction objects with
  | nil => simp [unpack]
  | cons object rest inductionHypothesis =>
    obtain ⟨key, body⟩ := object
    have round : (store.unpack ((key, body) :: rest)).MayPerform (WritesTo path) ↔
        store.path key = path ∨ (store.unpack rest).MayPerform (WritesTo path) := by
      simp only [unpack, write]
      simp [WritesTo]
    rw [round, inductionHypothesis, List.exists_mem_cons_iff]

/-- The files a pack is unpacked to all lie directly inside the objects directory exactly when
each of its keys, joined to that directory, stays directly inside it. -/
theorem unpack_raw_confined_iff (store : Store) (raw : Bytes) :
    (∀ path, (store.unpack_raw raw).MayPerform (WritesTo path) →
        DirectlyInside store.objects path) ↔
      ∀ objects, Pack.decode store.build raw = .ok objects →
        ∀ object ∈ objects, StaysIn store.objects object.1 := by
  unfold unpack_raw
  cases decoded : Pack.decode store.build raw with
  | err message => simp
  | panicked => simp
  | ok objects =>
    simp only [Return.ok.injEq, forall_eq', Program.pure_eq_finish]
    constructor
    · intro inside object member
      refine (directlyInside_join_iff store.isDirectory object.1).mp (inside _ ?_)
      rw [Program.mayPerform_bind_finish, unpack_mayPerform_iff]
      exact ⟨object, member, rfl⟩
    · intro stays path written
      rw [Program.mayPerform_bind_finish, unpack_mayPerform_iff] at written
      obtain ⟨object, member, rfl⟩ := written
      exact (directlyInside_join_iff store.isDirectory object.1).mpr (stays object member)

/-- A pack with one object, whose key climbs out of the directory. -/
def climbingPack : Bytes := Pack.encode [("../summary.json", utf8 "x")] 1024

theorem decode_climbingPack (build : Build) :
    Pack.decode build climbingPack = .ok [("../summary.json", utf8 "x")] :=
  Pack.decode_encode build _ 1024 (by decide) (by decide)

/-- Unpacking that pack writes a file outside the directory. -/
theorem unpack_raw_escapes :
    ¬ ∀ (store : Store) (raw : Bytes) (path : String),
      (store.unpack_raw raw).MayPerform (WritesTo path) → DirectlyInside store.objects path := by
  intro always
  have written : (exampleStore.unpack_raw climbingPack).MayPerform
      (WritesTo "/tmp/cicache/objects/../summary.json") := by
    unfold unpack_raw
    rw [decode_climbingPack]
    refine (Program.mayPerform_bind_finish _ _).mpr ((unpack_mayPerform_iff _ _).mpr ?_)
    exact ⟨_, List.mem_singleton_self _, by decide⟩
  obtain ⟨name, same⟩ := always _ _ _ written
  have components : components "/tmp/cicache/objects/../summary.json" =
      Path.components exampleStore.objects ++ [.ParentDir, .Normal "summary.json"] := by decide
  rw [components] at same
  cases List.append_cancel_left same

end Store

end Cicache
