/-
This file lets several jobs run at the same time. Each of them has its memory, its disk and its
tasks for itself; the service is what they have in common. Any job may take the next step, and
nothing that one of them finds at the service is taken back by another.
-/

import Cicache.Lib.Beside
import Cicache.Lib.History
import Cicache.Honest
import Cicache.Index

namespace Cicache

open Text Interleaving

/-- The service is what jobs have in common. -/
def served : Common World Service where
  get := World.service
  set service world := { world with service := service }
  get_set _ _ := rfl
  set_get _ := rfl
  set_set _ _ _ := rfl

/-- The jobs over one service. -/
abbrev Fleet (Jobs : Type) := Config Act Answer (Jobs × TaskId) (Beside Jobs World Service) Value

namespace Fleet

variable {Jobs : Type} [DecidableEq Jobs] (crates : Crates) (proxies : Jobs → Proxy)

/-- The machine of the jobs. -/
def machine : Machine Act Answer (Jobs × TaskId) (Beside Jobs World Service) Choice Arrival Value :=
  Machine.beside served fun job => Job.machine crates (proxies job)

omit [DecidableEq Jobs] in
/-- Every job begins. -/
def start (service : Service) : Fleet Jobs :=
  Config.beside service fun job => Job.idle (proxies job) (Job.fresh (proxies job) service [])

omit [DecidableEq Jobs] in
/-- Every action of a job keeps to the job's rule. -/
def Permits (permitted : Jobs → TaskId → World → Act → Choice → Prop) :
    Fleet Jobs → Event (Jobs × TaskId) Choice Arrival → Prop :=
  besidePermits served fun job => Cicache.Permits (permitted job) fun _ _ _ => True

/-- What the jobs have performed. -/
abbrev history (service : Service) (events : List (Event (Jobs × TaskId) Choice Arrival)) :
    List ((Jobs × TaskId) × Done Act Answer) :=
  (machine crates proxies).history (start proxies service) events

omit [DecidableEq Jobs] in
theorem of_start (service : Service) (job : Jobs) : (start proxies service).of served job =
    Job.idle (proxies job) (Job.fresh (proxies job) service []) := rfl

section Runs

variable {crates : Crates} {proxies : Jobs → Proxy}
variable {permitted : Jobs → TaskId → World → Act → Choice → Prop}
variable {before after : Fleet Jobs}

/-- A service that grows makes the state of every job grow. -/
theorem grows_share {first second world : World} (grows : Grows first second)
    (same : world.service = first.service) :
    Grows world (served.set (served.get second) world) :=
  .of_service (same ▸ grows.calls) (same ▸ grows.reserved) (same ▸ grows.blobs)
    (same ▸ grows.entries) (same ▸ grows.offers)

/-- No job takes anything back, from itself or from another. -/
theorem reaches_grows
    (reached : (machine crates proxies).Reaches (Permits permitted) before after) (job : Jobs) :
    Grows (before.of served job).shared (after.of served job).shared := by
  refine reached.beside (fun job config => Grows (before.of served job).shared config.shared)
    ?_ ?_ (fun _ => .rfl) job
  · exact fun _ _ _ _ _ stepped grows => grows.trans (stepped_grows stepped)
  · exact fun _ _ _ _ _ _ _ _ stepped _ grows same =>
      grows.trans (grows_share (stepped_grows stepped) same)

/-- Jobs that are careful with their indexes, each on its own, are so together. -/
theorem index_kept {accounted : Jobs → World → String → Prop}
    (vouches : ∀ job, Vouches crates (permitted job) (accounted job))
    (loads : ∀ {job number world key choice},
      permitted job (.call number) world (.insert .index key) choice → accounted job world key)
    {service : Service}
    (reached : (machine crates proxies).Reaches (Permits permitted) (start proxies service) after)
    (job : Jobs) : IndexKept (accounted job) (after.of served job).shared := by
  refine (Guarded.beside (fun job => guards_loading (vouches job) (proxies job) loads) ?_ reached
    (fun job => ?_) job).shared
  · intro mover other before event after state _ _ stepped _ _ kept same
    have grows := grows_share (stepped_grows stepped) same
    exact ⟨fun key member => (vouches other).lasts (kept key member) grows, fun _ => grows⟩
  · rw [of_start]
    exact guarded_idle (vouches job) (proxies job) fun key member =>
      absurd member (Finset.notMem_empty _)

end Runs

end Fleet

end Cicache
