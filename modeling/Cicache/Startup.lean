/-
This file says how a job starts: before it serves anything, it reads the manifest. Whatever the
fetch brings, the index then holds the keys of the manifest that was read.
-/

import Cicache.Growth

namespace Cicache

open Text Interleaving

/-- The keys of the manifest a fetch brought. -/
def fetchedKeys : Except String (Option Bytes) → Finset String
  | .ok (some raw) => (Store.manifestKeys raw).toFinset
  | _ => ∅

/-- A run of `load_index` that fetches a manifest with these keys. -/
def LoadsIndex (crates : Crates) (store : Store)
    (permitted : TaskId → World → Act → Choice → Prop) (id : TaskId) (read : Finset String)
    (before after : World) : Prop :=
  match store.gha with
  | none => read = ∅ ∧ after = before
  | some gha => ∃ fetched middle,
      (gha.get_scoped crates store.config.key_prefix store.config.scope "index").Runs
        (World.Acts permitted id) before fetched middle ∧
      read = fetchedKeys fetched ∧ after = middle.addKeys .index read

variable {crates : Crates} {store : Store} {permitted : TaskId → World → Act → Choice → Prop}
variable {id : TaskId} {before after : World}

theorem learn_runs {keys : List String}
    (run : (Store.learn keys).Runs (World.Acts permitted id) before () after) :
    after = before.addKeys .index keys.toFinset := by
  induction keys generalizing before with
  | nil =>
    rw [List.toFinset_nil, World.addKeys_empty]
    exact run.2.symm
  | cons key rest inductionHypothesis =>
    obtain ⟨answer, middle, ⟨_, _, result⟩, run⟩ := run
    cases result
    rw [inductionHypothesis run, World.addKeys_addKey, List.toFinset_cons]

/-- Every run of `load_index` fetches some manifest. -/
theorem load_index_runs
    (run : (store.load_index crates).Runs (World.Acts permitted id) before () after) :
    ∃ read, LoadsIndex crates store permitted id read before after := by
  unfold Store.load_index at run
  unfold LoadsIndex
  cases client : store.gha with
  | none =>
    rw [client] at run
    exact ⟨∅, rfl, run.2.symm⟩
  | some gha =>
    rw [client] at run
    obtain ⟨fetched, middle, fetches, run⟩ := (Program.runs_bind ..).mp run
    refine ⟨_, fetched, middle, fetches, rfl, ?_⟩
    rcases fetched with err | (_ | raw)
    · exact run.2.symm.trans (World.addKeys_empty _ _).symm
    · exact run.2.symm.trans (World.addKeys_empty _ _).symm
    · exact learn_runs run

end Cicache
