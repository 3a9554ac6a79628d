/-
This file follows the objects of a job from `put` to the service. The first `put` of a key owns it:
it clones the sender, sends the object and drops the clone; the upload loop takes one item after the
other, gets a permit and spawns an upload; and `flush` closes the queue and waits for the loop. What
each task has done so far puts it in a stage, and how the stages of all tasks relate to the queue,
the permits and the uploads is kept by every action, in any order of the tasks.
-/

import Cicache.Footprint
import Cicache.Lib.Stages

namespace Cicache

open Text Interleaving

namespace Delivery

/-! ### Stages -/

/-- How far a task has got. -/
inductive Stage where
  | idle
  /-- A `put` that was the first of its key, has a clone of the sender, has sent its object, or
  has found the sender gone. -/
  | queued (key : String)
  | holding (key : String)
  | sent (item : Item)
  | late (key : String)
  /-- The upload loop with an item, with an item and a permit, behind the end of the queue, and
  behind the end of the uploads. -/
  | taken (item : Item)
  | permitted (item : Item)
  | closed
  | joined
  /-- An upload that has given its permit back. -/
  | dropped
  /-- A `flush` that has the handle of the upload loop, has waited for it, or found no handle. -/
  | joining
  | awaited
  | unawaited
  deriving DecidableEq

namespace Stage

/-- The key that a `put` owns. -/
def key : Stage → Option String
  | .queued key | .holding key | .late key => some key
  | .sent item => some item.1
  | _ => none

/-- What the upload loop has in its hands. -/
def held : Stage → List Item
  | .taken item | .permitted item => [item]
  | _ => []

/-- Where a `flush` is that has asked for the upload loop. -/
def flushes : Stage → Bool
  | .joining | .awaited | .unawaited => true
  | _ => false

/-- The permits the upload loop has in its hands. -/
def permits : Stage → Nat
  | .permitted _ => 1
  | _ => 0

def next (stage : Stage) : (action : Act) → Answer action → Stage
  | .insert .queued key, fresh => if fresh = true then .queued key else stage
  | .clone_sender, cloned =>
      match stage with
      | .queued key => if cloned = true then .holding key else .late key
      | _ => stage
  | .send item, _ => .sent item
  | .recv, received => received.elim .closed .taken
  | .acquire, _ => stage.held.head?.elim stage .permitted
  | .spawn _, _ => .idle
  | .join_uploads, _ => .joined
  | .drop_permit, _ => .dropped
  | .take_uploader, handle => if handle = true then .joining else .unawaited
  | .join_uploader, _ => .awaited
  | _, _ => stage

/-- What a task may do at a stage, when these were the arrivals. -/
def allows (events : List (Event TaskId Choice Arrival)) (id : TaskId) (stage : Stage) : Act → Prop
  | .insert .queued _ => stage = .idle
  | .clone_sender => ∃ key, stage = .queued key
  | .send item => stage = .holding item.1 ∧ ∃ number, id = .call number ∧
      .arrive (.call number) (.put item.1 item.2) ∈ events
  | .recv => id = .uploader ∧ stage = .idle
  | .acquire => id = .uploader ∧ ∃ item, stage = .taken item
  | .spawn item => id = .uploader ∧ stage = .permitted item
  | .join_uploads => id = .uploader ∧ stage = .closed
  | .drop_permit => stage = .idle
  | .take_sender => stage = .idle ∧ .arrive id .flush ∈ events
  | .take_uploader => stage = .idle ∧ .arrive id .flush ∈ events
  | .join_uploader => stage = .joining
  | .iter .index => stage = .awaited ∨ stage = .unawaited
  | .insert .index _ | .store .index_dirty | .record_upload _ _ =>
      stage = .idle ∧ ∃ number, id = .upload number
  | _ => stage ≠ .dropped

/-- What a task ends as. Only a `put` of a small object ends with its key queued. -/
def ended (events : List (Event TaskId Choice Arrival)) (threshold : Nat) :
    TaskId → Value → Stage → Prop
  | .call number, _, stage => (∀ key, stage ≠ .holding key) ∧ ∀ key bytes, stage = .queued key →
      .arrive (.call number) (.put key bytes) ∈ events → bytes.length < threshold
  | .tunnel _, _, _ => True
  | .uploader, value, stage =>
      value = .round true ∧ stage = .idle ∨ value = .round false ∧ stage = .joined
  | .upload _, _, stage => stage = .dropped

end Stage

/-- The stages of a job's tasks. -/
def stages (events : List (Event TaskId Choice Arrival)) : Stages Act Answer TaskId Stage where
  first := .idle
  next stage done := stage.next done.action done.answer
  allows := Stage.allows events

/-! ### The programs follow the stages -/

section Programs

variable {events : List (Event TaskId Choice Arrival)} {id : TaskId} {stage : Stage}

/-- Calls to the service and work on files and on the pack leave the stage as it is. -/
theorem rests_of_calling {action : Act} (calling : Calling action) (alive : stage ≠ .dropped) :
    (stages events).Rests id stage action := by
  cases action with
  | insert set key => rcases calling with rfl | rfl <;> exact ⟨alive, fun _ => rfl⟩
  | iter set =>
    obtain rfl := calling
    exact ⟨alive, fun _ => rfl⟩
  | store flag =>
    obtain rfl := calling
    exact ⟨alive, fun _ => rfl⟩
  | _ => first | exact ⟨alive, fun _ => rfl⟩ | exact calling.elim

theorem calling_follows {Result : Type} {program : Task Result} (within : program.Within Calling)
    (alive : stage ≠ .dropped) :
    (stages events).Follows id (fun _ later => later = stage) program stage :=
  Stages.follows_of_within (within.mono fun _ calling => rests_of_calling calling alive)

theorem put_follows (store : Store) {number : Nat} {key : String} {bytes : Bytes}
    (arrived : .arrive (.call number) (.put key bytes) ∈ events)
    (only : ∀ arrival, .arrive (.call number) arrival ∈ events → arrival = .put key bytes)
    (value : Value) :
    (stages events).Follows (.call number)
      (fun _ => Stage.ended events store.config.pack_threshold (.call number) value)
      (store.put key bytes) .idle := by
  unfold Store.put
  refine Stages.follows_act rfl fun fresh => ?_
  cases fresh with
  | false => exact ⟨nofun, nofun⟩
  | true =>
    refine Stages.follows_bind (calling_follows (write_within trivial trivial) nofun)
      fun _ later same => ?_
    subst same
    split
    · rename_i small
      have ends : Stage.ended events store.config.pack_threshold (.call number) value
          (.queued key) := by
        refine ⟨nofun, fun other contents _ put => ?_⟩
        cases only _ put
        exact small
      refine Stages.follows_act nofun fun added => ?_
      cases added with
      | false => exact ends
      | true => exact ⟨nofun, fun _ => ends⟩
    · refine Stages.follows_act ⟨key, rfl⟩ fun cloned => ?_
      cases cloned with
      | false => exact ⟨nofun, nofun⟩
      | true => exact ⟨⟨rfl, number, rfl, arrived⟩, fun _ => ⟨nofun, nofun⟩⟩

theorem flush_follows (crates : Crates) (store : Store) {number : Nat}
    (arrived : .arrive (.call number) .flush ∈ events) (threshold : Nat) (value : Value) :
    (stages events).Follows (.call number)
      (fun _ => Stage.ended events threshold (.call number) value) (store.flush crates) .idle := by
  -- What `flush` does once the loop has ended.
  have saves : ∀ stage : Stage, stage = .awaited ∨ stage = .unawaited →
      (stages events).Follows (.call number)
        (fun _ => Stage.ended events threshold (.call number) value)
        (store.save_index crates >>= fun _ => store.save_pack crates) stage := by
    intro stage waited
    have alive : stage ≠ .dropped := by rcases waited with rfl | rfl <;> exact nofun
    have first : (stages events).Follows (.call number) (fun _ later => later = stage)
        (store.save_index crates) stage := by
      unfold Store.save_index
      split
      · rfl
      · refine Stages.follows_act alive fun dirty => ?_
        split
        · refine Stages.follows_act waited fun keys => ?_
          refine calling_follows ((put_scoped_calling crates _ _ _ _ _ _).bind fun stored => ?_)
            alive
          cases stored <;> exact trivial
        · rfl
    refine Stages.follows_bind first fun _ later same => ?_
    subst same
    refine (calling_follows (save_pack_calling crates store) alive).mono fun _ after same => ?_
    subst same
    rcases waited with rfl | rfl <;> exact ⟨nofun, nofun⟩
  unfold Store.flush
  refine Stages.follows_act ⟨rfl, arrived⟩ fun _ =>
    Stages.follows_act ⟨rfl, arrived⟩ fun handle => ?_
  cases handle with
  | false => exact saves _ (Or.inr rfl)
  | true => exact Stages.follows_act rfl fun _ => saves _ (Or.inl rfl)

theorem upload_round_follows {store : Store} {gha : GhaCache} (client : store.gha = some gha) :
    (stages events).Follows .uploader (fun again later =>
      again = true ∧ later = .idle ∨ again = false ∧ later = .joined) store.upload_round .idle := by
  unfold Store.upload_round
  rw [client]
  refine Stages.follows_act ⟨rfl, rfl⟩ fun received => ?_
  cases received with
  | none => exact ⟨⟨rfl, rfl⟩, fun _ => Or.inr ⟨rfl, rfl⟩⟩
  | some item =>
    refine Stages.follows_act ⟨rfl, item, rfl⟩ fun _ => ?_
    exact Stages.follows_act ⟨rfl, rfl⟩ fun _ => Or.inl ⟨rfl, rfl⟩

theorem upload_follows (crates : Crates) (gha : GhaCache) (number : Nat) (key : String)
    (bytes : Bytes) :
    (stages events).Follows (.upload number) (fun _ later => later = .dropped)
      (Store.upload crates gha key bytes) .idle := by
  have drops : (stages events).Follows (.upload number) (fun _ later => later = .dropped)
      (act .drop_permit : Task Unit) .idle := ⟨rfl, fun _ => rfl⟩
  have adds : (stages events).Follows (.upload number) (fun _ later => later = .dropped) (do
      if ← act (.insert .index key) then
        act (.store .index_dirty)
        act .drop_permit
      else act .drop_permit : Task Unit) .idle := by
    refine Stages.follows_act ⟨rfl, number, rfl⟩ fun added => ?_
    cases added with
    | false => exact drops
    | true => exact Stages.follows_act ⟨rfl, number, rfl⟩ fun _ => drops
  unfold Store.upload
  refine Stages.follows_bind (calling_follows (put_calling crates gha _ _) nofun)
    fun stored later same => ?_
  subst same
  rcases stored with err | (_ | _)
  · exact Stages.follows_act ⟨rfl, number, rfl⟩ fun _ => drops
  · exact adds
  · exact Stages.follows_act ⟨rfl, number, rfl⟩ fun _ => adds

end Programs

/-! ### What the stages say of the shared state -/

/-- The objects on their way, from the first that was spawned to the last that was sent. -/
def flow (stage : TaskId → Stage) (world : World) : List Item :=
  world.spawned.map Prod.snd ++ ((stage .uploader).held ++ world.queue)

/-- What holds of the puts: a key has one owner, what the owners have sent is what is on its way,
and the clones of the sender are in their hands. -/
structure Owned (stage : TaskId → Stage) (world : World) : Prop where
  keys : ∀ id key, (stage id).key = some key → key ∈ world.sets .queued
  owner : ∀ id other key, (stage id).key = some key → (stage other).key = some key → id = other
  inFlow : ∀ item, item ∈ flow stage world ↔ ∃ id, stage id = .sent item
  once : ((flow stage world).map Prod.fst).Nodup
  clones : ∃ holders : Finset TaskId, holders.card = world.clones ∧
    ∀ id, id ∈ holders ↔ ∃ key, stage id = .holding key
  late : ∀ id key, stage id = .late key → world.sender = false

/-- What holds of the upload loop and the uploads: each upload that has begun and not ended has one
of the permits, and the loop ends on an empty queue that nothing can enter any more. -/
structure Drained (limit : Nat) (stage : TaskId → Stage) (world : World) : Prop where
  numbers : world.spawned.map Prod.fst = List.range world.uploads
  nodup : world.running.Nodup
  running : ∀ number, number ∈ world.running ↔
    number < world.uploads ∧ stage (.upload number) ≠ .dropped
  absent : ∀ number, world.uploads ≤ number → stage (.upload number) = .idle
  permits : world.permits + world.running.length + (stage .uploader).permits = limit
  closed : stage .uploader = .closed ∨ stage .uploader = .joined →
    world.sender = false ∧ world.clones = 0 ∧ world.queue = []
  joined : stage .uploader = .joined → world.running = []
  done : world.uploader_done = true → stage .uploader = .joined

/-- What holds of a `flush`: once it has waited, the loop has ended. -/
structure Awaited (stage : TaskId → Stage) (world : World) : Prop where
  awaited : ∀ id, stage id = .awaited → world.uploader_done = true
  unawaited : ∀ id, stage id = .unawaited → world.uploader = false
  handle : world.uploader = true ∨ ∃ id, stage id = .joining ∨ stage id = .awaited

/-- Actions that move no object and no permit. -/
def moves : Act → Bool
  | .insert .queued _ | .clone_sender | .send _ | .take_sender | .recv | .acquire | .spawn _
  | .drop_permit | .join_uploads | .take_uploader | .join_uploader => true
  | _ => false

/-- What an action may change that moves nothing. -/
def Aside (before after : World) : Prop :=
  ∃ sets flags files tunnels stats built service, sets .queued = before.sets .queued ∧
    after = { before with
      sets := sets
      flags := flags
      files := files
      tunnels := tunnels
      stats := stats
      built := built
      service := service }

section Steps

variable {id : TaskId} {action : Act} {choice : Choice} {before after : World}
variable {answer : Answer action} {limit : Nat} {stage : TaskId → Stage}

theorem exec_aside (still : moves action = false)
    (result : World.exec id action choice before = some (answer, after)) : Aside before after := by
  cases action with
  | insert set key =>
    cases result
    refine ⟨_, _, _, _, _, _, _, World.addKey_of_ne ?_ _ _, rfl⟩
    rintro rfl
    cases still
  | _ =>
    first
    | (cases still; done)
    | simp only [World.exec] at result
      (repeat' split at result) <;> cases result <;> exact ⟨_, _, _, _, _, _, _, rfl, rfl⟩

theorem next_of_still (still : moves action = false) (stage : Stage) (answer : Answer action) :
    stage.next action answer = stage := by
  cases action with
  | insert set key =>
    cases set with
    | queued => cases still
    | _ => rfl
  | _ => first | rfl | cases still

theorem exists_update_iff {reached : Stage} {kind : Stage → Prop} (was : ¬ kind (stage id))
    (becomes : ¬ kind reached) :
    (∃ other, kind (Function.update stage id reached other)) ↔ ∃ other, kind (stage other) := by
  refine exists_congr fun other => ?_
  by_cases same : other = id
  · subst same
    rw [Function.update_self]
    exact iff_of_false becomes was
  · rw [Function.update_of_ne same]

/-- A stage with the same item in hand. -/
theorem flow_update (world : World) {reached : Stage} (held : reached.held = (stage id).held) :
    flow (Function.update stage id reached) world = flow stage world := by
  have same : (Function.update stage id reached .uploader).held = (stage .uploader).held := by
    by_cases loop : id = .uploader
    · rw [← loop, Function.update_self, held]
    · rw [Function.update_of_ne (Ne.symm loop)]
  rw [flow, flow, same]

/-- A step that sends nothing. -/
theorem Owned.inFlow_update (owned : Owned stage before) {reached : Stage}
    (was : ∀ item, stage id ≠ .sent item) (becomes : ∀ item, reached ≠ .sent item)
    (same : flow (Function.update stage id reached) after = flow stage before) (item : Item) :
    item ∈ flow (Function.update stage id reached) after ↔
      ∃ other, Function.update stage id reached other = .sent item := by
  rw [same, owned.inFlow item]
  exact (@exists_update_iff id stage reached (· = .sent item) (was item) (becomes item)).symm

/-- A step that neither makes nor ends a task's ownership. -/
theorem Owned.other (owned : Owned stage before) {reached : Stage}
    (was : (stage id).key = none) (becomes : reached.key = none)
    (sameFlow : flow (Function.update stage id reached) after = flow stage before)
    (sets : after.sets .queued = before.sets .queued) (clones : after.clones = before.clones)
    (sender : before.sender = false → after.sender = false) :
    Owned (Function.update stage id reached) after := by
  have inFlow := owned.inFlow_update (fun _ sent => absurd (sent ▸ was) nofun)
    (fun _ sent => absurd (sent ▸ becomes) nofun) sameFlow
  obtain ⟨keys, owner, _, once, ⟨holders, card, holds⟩, late⟩ := owned
  refine ⟨?_, ?_, inFlow, ?_, ⟨holders, card.trans clones.symm, ?_⟩, ?_⟩
  · grind
  · grind
  · rw [sameFlow]
    exact once
  · grind [Stage.key]
  · grind [Stage.key]

/-- Stages of the upload loop with something in its hands, of its end, and of an upload's end. -/
def Stage.loops : Stage → Bool
  | .taken _ | .permitted _ | .closed | .joined | .dropped => true
  | _ => false

theorem Stage.permits_of_quiet {stage : Stage} (quiet : stage.loops = false) :
    stage.permits = 0 := by
  cases stage <;> first | rfl | cases quiet

/-- A step of a task outside the loop. -/
theorem Drained.other (drained : Drained limit stage before) {reached : Stage}
    (begun : ∀ number, id = .upload number → number < before.uploads)
    (was : (stage id).loops = false) (becomes : reached.loops = false)
    (spawned : after.spawned = before.spawned) (uploads : after.uploads = before.uploads)
    (running : after.running = before.running) (permits : after.permits = before.permits)
    (done : after.uploader_done = before.uploader_done)
    (closed : stage .uploader = .closed ∨ stage .uploader = .joined →
      after.sender = false ∧ after.clones = 0 ∧ after.queue = []) :
    Drained limit (Function.update stage id reached) after := by
  obtain ⟨numbers, nodup, runs, absent, sum, _, joined, ended⟩ := drained
  rw [← spawned, ← uploads] at numbers
  rw [← running] at nodup
  refine ⟨numbers, nodup, ?_, ?_, ?_, ?_, ?_, ?_⟩
  · grind [Stage.loops]
  · grind
  · rw [permits, running, ← sum]
    have none := Stage.permits_of_quiet becomes
    have none' := Stage.permits_of_quiet was
    grind
  · grind [Stage.loops]
  · grind [Stage.loops]
  · grind [Stage.loops]

/-- A step of a task that does not wait for the loop. -/
theorem Awaited.other (awaited : Awaited stage before) {reached : Stage}
    (was : (stage id).flushes = false) (becomes : reached.flushes = false)
    (uploader : after.uploader = before.uploader)
    (done : before.uploader_done = true → after.uploader_done = true) :
    Awaited (Function.update stage id reached) after := by
  obtain ⟨waited, unawaited, handle⟩ := awaited
  have apart : ∀ {there : Stage}, there.flushes = false →
      ¬ (there = .joining ∨ there = .awaited) := by
    rintro there still (rfl | rfl) <;> cases still
  have taken : reached ≠ .unawaited := by
    rintro rfl
    cases becomes
  refine ⟨by grind, by grind, ?_⟩
  rw [uploader]
  exact handle.imp_right (@exists_update_iff id stage reached (fun s => s = .joining ∨ s = .awaited)
    (apart was) (apart becomes)).mpr

theorem Owned.aside (owned : Owned stage before) (aside : Aside before after) :
    Owned stage after := by
  obtain ⟨sets, flags, files, tunnels, stats, built, service, queued, rfl⟩ := aside
  refine { owned with keys := fun id key owns => ?_ }
  change key ∈ sets .queued
  rw [queued]
  exact owned.keys id key owns

/-! ### The steps of a `put` -/

/-- Inserting a key that was not queued. -/
theorem Owned.queue (owned : Owned stage before) (idle : stage id = .idle) {key : String}
    (fresh : key ∉ before.sets .queued) :
    Owned (Function.update stage id (.queued key)) (before.addKey .queued key) := by
  have same : flow (Function.update stage id (.queued key)) (before.addKey .queued key) =
      flow stage before := flow_update _ (by rw [idle]; rfl)
  have inFlow := owned.inFlow_update (fun _ sent => nomatch idle.symm.trans sent)
    (fun _ => by nofun) same
  obtain ⟨keys, owner, _, once, ⟨holders, card, holds⟩, late⟩ := owned
  have unowned : ∀ other, (stage other).key ≠ some key :=
    fun other owns => fresh (keys other key owns)
  refine ⟨?_, ?_, inFlow, ?_, ⟨holders, card, ?_⟩, ?_⟩
  · grind [Stage.key, World.addKey_self]
  · grind [Stage.key]
  · rw [same]
    exact once
  · grind
  · grind [World.addKey]

/-- Cloning the sender, and not being able to. -/
theorem Owned.clone (owned : Owned stage before) {key : String} (queued : stage id = .queued key) :
    Owned (Function.update stage id (.holding key))
    { before with clones := before.clones + 1 } := by
  have same : flow (Function.update stage id (.holding key))
      { before with clones := before.clones + 1 } = flow stage before :=
    flow_update _ (by rw [queued]; rfl)
  have inFlow := owned.inFlow_update (fun _ sent => nomatch queued.symm.trans sent)
    (fun _ => by nofun) same
  obtain ⟨keys, owner, _, once, ⟨holders, card, holds⟩, late⟩ := owned
  have idleHands : id ∉ holders := by
    rw [holds, queued]
    rintro ⟨_, ⟨⟩⟩
  refine ⟨?_, ?_, inFlow, ?_, ⟨insert id holders, ?_, ?_⟩, ?_⟩
  · grind [Stage.key]
  · grind [Stage.key]
  · rw [same]
    exact once
  · rw [Finset.card_insert_of_notMem idleHands, card]
  · grind
  · grind

theorem Owned.miss (owned : Owned stage before) {key : String} (queued : stage id = .queued key)
    (gone : before.sender = false) : Owned (Function.update stage id (.late key)) before := by
  have same : flow (Function.update stage id (.late key)) before = flow stage before :=
    flow_update _ (by rw [queued]; rfl)
  have inFlow := owned.inFlow_update (fun _ sent => nomatch queued.symm.trans sent)
    (fun _ => by nofun) same
  obtain ⟨keys, owner, _, once, ⟨holders, card, holds⟩, late⟩ := owned
  refine ⟨?_, ?_, inFlow, ?_, ⟨holders, card, ?_⟩, ?_⟩
  · grind [Stage.key]
  · grind [Stage.key]
  · rw [same]
    exact once
  · grind
  · grind

/-- Sending the object behind those of other keys. -/
theorem Owned.send (owned : Owned stage before) {item : Item}
    (holding : stage id = .holding item.1) :
    0 < before.clones ∧ Owned (Function.update stage id (.sent item))
      { before with queue := before.queue ++ [item], clones := before.clones - 1 } := by
  obtain ⟨keys, owner, inFlow, once, ⟨holders, card, holds⟩, late⟩ := owned
  have same : flow (Function.update stage id (.sent item))
      { before with queue := before.queue ++ [item], clones := before.clones - 1 } =
        flow stage before ++ [item] := by
    have moved := @flow_update id stage
      { before with queue := before.queue ++ [item], clones := before.clones - 1 } (.sent item)
      (by rw [holding]; rfl)
    rw [moved]
    simp only [flow, List.append_assoc]
  have inHands : id ∈ holders := (holds id).mpr ⟨_, holding⟩
  have fresh : item.1 ∉ (flow stage before).map Prod.fst := by
    intro member
    obtain ⟨other, there, sameKey⟩ := List.mem_map.mp member
    obtain ⟨sender, sent⟩ := (inFlow other).mp there
    have owns : (stage sender).key = some item.1 := by rw [sent, ← sameKey]; rfl
    have itself := owner sender id item.1 owns (by rw [holding]; rfl)
    rw [itself, holding] at sent
    cases sent
  refine ⟨card ▸ Finset.card_pos.mpr ⟨id, inHands⟩, ?_, ?_, fun other => ?_, ?_,
    ⟨holders.erase id, ?_, ?_⟩, ?_⟩
  · grind [Stage.key]
  · grind [Stage.key]
  · rw [same, List.mem_append, List.mem_singleton, inFlow other]
    constructor
    · rintro (⟨sender, sent⟩ | rfl)
      · refine ⟨sender, ?_⟩
        grind
      · exact ⟨id, Function.update_self ..⟩
    · rintro ⟨sender, sent⟩
      grind
  · rw [same, List.map_append, List.map_singleton]
    exact List.concat_eq_append ▸ once.concat fresh
  · rw [Finset.card_erase_of_mem inHands, card]
  · grind
  · grind

/-! ### The steps of the upload loop -/

/-- What the loop does leaves the puts alone, as long as nothing gets lost on the way. -/
theorem Owned.loop (owned : Owned stage before) {reached : Stage} {queue : List Item}
    {spawned : List (Nat × Item)} (done : Bool) (permits uploads : Nat) (running : List Nat)
    (was : (stage .uploader).key = none) (becomes : reached.key = none)
    (same : spawned.map Prod.snd ++ (reached.held ++ queue) = flow stage before) :
    Owned (Function.update stage .uploader reached)
      { before with
        queue := queue
        spawned := spawned
        uploader_done := done
        permits := permits
        uploads := uploads
        running := running } := by
  refine owned.other was becomes ?_ rfl rfl id
  rw [← same, flow, Function.update_self]

theorem Drained.receive (drained : Drained limit stage before) (idle : stage .uploader = .idle)
    {item : Item} {rest : List Item} (waiting : before.queue = item :: rest) :
    Drained limit (Function.update stage .uploader (.taken item))
    { before with queue := rest } := by
  obtain ⟨numbers, nodup, runs, absent, sum, closed, joined, done⟩ := drained
  refine ⟨numbers, nodup, ?_, ?_, ?_, ?_, ?_, ?_⟩
  · grind
  · grind
  · rw [Function.update_self]
    rw [idle] at sum
    exact sum
  · grind
  · grind
  · grind

theorem Drained.close (drained : Drained limit stage before) (idle : stage .uploader = .idle)
    (empty : before.queue = []) (closes : before.sender = false ∧ before.clones = 0) :
    Drained limit (Function.update stage .uploader .closed) before := by
  obtain ⟨numbers, nodup, runs, absent, sum, closed, joined, done⟩ := drained
  refine ⟨numbers, nodup, ?_, ?_, ?_, ?_, ?_, ?_⟩
  · grind
  · grind
  · rw [Function.update_self]
    rw [idle] at sum
    exact sum
  · exact fun _ => ⟨closes.1, closes.2, empty⟩
  · grind
  · grind

theorem Drained.acquire (drained : Drained limit stage before) {item : Item}
    (taken : stage .uploader = .taken item) (available : 0 < before.permits) :
    Drained limit (Function.update stage .uploader (.permitted item))
      { before with permits := before.permits - 1 } := by
  obtain ⟨numbers, nodup, runs, absent, sum, closed, joined, done⟩ := drained
  refine ⟨numbers, nodup, ?_, ?_, ?_, ?_, ?_, ?_⟩
  · grind
  · grind
  · rw [taken] at sum
    simp only [Function.update_self, Stage.permits] at sum ⊢
    omega
  · grind
  · grind
  · grind

theorem Drained.spawn (drained : Drained limit stage before) {item : Item}
    (permitted : stage .uploader = .permitted item) :
    Drained limit (Function.update stage .uploader .idle) { before with
      uploads := before.uploads + 1
      spawned := before.spawned ++ [(before.uploads, item)]
      running := before.running ++ [before.uploads] } := by
  obtain ⟨numbers, nodup, runs, absent, sum, closed, joined, done⟩ := drained
  refine ⟨?_, ?_, ?_, ?_, ?_, ?_, ?_, ?_⟩
  · rw [List.map_append, numbers, List.range_succ]
    rfl
  · have fresh : before.uploads ∉ before.running := fun member =>
      absurd ((runs _).mp member).1 (lt_irrefl _)
    have longer := nodup.concat fresh
    rwa [List.concat_eq_append] at longer
  · intro number
    rw [List.mem_append, List.mem_singleton, runs]
    have fresh := absent before.uploads le_rfl
    grind
  · grind
  · rw [permitted] at sum
    simp only [Function.update_self, Stage.permits, List.length_append, List.length_singleton]
      at sum ⊢
    omega
  · grind
  · grind
  · grind

theorem Drained.join (drained : Drained limit stage before) (closed : stage .uploader = .closed)
    (none : before.running = []) :
    Drained limit (Function.update stage .uploader .joined)
    { before with uploader_done := true } := by
  obtain ⟨numbers, nodup, runs, absent, sum, closes, joined, done⟩ := drained
  refine ⟨numbers, nodup, ?_, ?_, ?_, ?_, ?_, ?_⟩
  · grind
  · grind
  · rw [Function.update_self]
    rw [closed] at sum
    exact sum
  · grind
  · exact fun _ => none
  · exact fun _ => Function.update_self ..

/-- An upload ends and gives its permit back. -/
theorem Drained.drop (drained : Drained limit stage before) {number : Nat}
    (begun : number < before.uploads) (idle : stage (.upload number) = .idle) :
    Drained limit (Function.update stage (.upload number) .dropped) { before with
      permits := before.permits + 1
      running := before.running.erase number } := by
  obtain ⟨numbers, nodup, runs, absent, sum, closed, joined, done⟩ := drained
  have inside : number ∈ before.running := (runs number).mpr ⟨begun, idle ▸ nofun⟩
  refine ⟨numbers, nodup.erase _, ?_, ?_, ?_, ?_, ?_, ?_⟩
  · intro other
    rw [nodup.mem_erase_iff, runs]
    grind
  · grind
  · have shorter := List.length_erase_of_mem inside
    have longer := List.length_pos_of_mem inside
    have other : TaskId.uploader ≠ .upload number := nofun
    rw [Function.update_of_ne other]
    simp only [shorter]
    omega
  · grind
  · grind
  · grind

/-! ### The steps of `flush` -/

theorem Awaited.take (awaited : Awaited stage before) (idle : stage id = .idle) :
    Awaited (Function.update stage id (if before.uploader = true then .joining else .unawaited))
      { before with uploader := false } := by
  obtain ⟨waited, unawaited, handle⟩ := awaited
  refine ⟨?_, fun _ _ => rfl, Or.inr ?_⟩
  · grind
  · by_cases first : before.uploader = true
    · exact ⟨id, Or.inl (by rw [Function.update_self, if_pos first])⟩
    · obtain ⟨other, waits⟩ := handle.resolve_left first
      refine ⟨other, ?_⟩
      grind

theorem Awaited.join (awaited : Awaited stage before) (done : before.uploader_done = true) :
    Awaited (Function.update stage id .awaited) before := by
  obtain ⟨waited, unawaited, handle⟩ := awaited
  refine ⟨fun _ _ => done, by grind, handle.imp_right ?_⟩
  exact fun _ => ⟨id, Or.inr (Function.update_self ..)⟩

/-! ### Any step -/

/-- How the stages and the shared state belong together. -/
structure Delivering (limit : Nat) (stage : TaskId → Stage) (world : World) : Prop where
  owned : Owned stage world
  drained : Drained limit stage world
  awaited : Awaited stage world

theorem Delivering.step {events : List (Event TaskId Choice Arrival)}
    (delivering : Delivering limit stage before)
    (begun : ∀ number, id = .upload number → number < before.uploads)
    (allowed : Stage.allows events id (stage id) action)
    (result : World.exec id action choice before = some (answer, after)) :
    Delivering limit (Function.update stage id ((stage id).next action answer)) after := by
  obtain ⟨owned, drained, awaited⟩ := delivering
  cases moving : moves action with
  | false =>
    have aside := exec_aside moving result
    rw [next_of_still moving, Function.update_eq_self]
    refine ⟨owned.aside aside, ?_, ?_⟩
    · obtain ⟨sets, flags, files, tunnels, stats, built, service, queued, rfl⟩ := aside
      exact { drained with }
    · obtain ⟨sets, flags, files, tunnels, stats, built, service, queued, rfl⟩ := aside
      exact { awaited with }
  | true =>
    cases action with
    | insert set key =>
      cases set with
      | queued =>
        cases result
        have idle : stage id = .idle := allowed
        by_cases fresh : key ∉ before.sets .queued
        · have reached : (stage id).next (.insert .queued key)
              (decide (key ∉ before.sets .queued)) =
              .queued key := if_pos (decide_eq_true fresh)
          rw [reached]
          refine ⟨owned.queue idle fresh, ?_, ?_⟩
          · exact drained.other begun (idle ▸ rfl) rfl rfl rfl rfl rfl rfl drained.closed
          · exact awaited.other (idle ▸ rfl) rfl rfl (fun kept => kept)
        · have reached : (stage id).next (.insert .queued key)
              (decide (key ∉ before.sets .queued)) =
              stage id := if_neg (by simpa using fresh)
          have same : (before.addKey .queued key).sets .queued = before.sets .queued := by
            rw [World.addKey_self, Finset.insert_eq_of_mem (not_not.mp fresh)]
          have aside : Aside before (before.addKey .queued key) := ⟨_, _, _, _, _, _, _, same, rfl⟩
          rw [reached, Function.update_eq_self]
          exact ⟨owned.aside aside, { drained with }, { awaited with }⟩
      | _ => cases moving
    | clone_sender =>
      obtain ⟨key, queued⟩ := allowed
      simp only [World.exec] at result
      split at result
      · rename_i open_
        cases result
        rw [queued]
        refine ⟨owned.clone queued, ?_,
          awaited.other (queued ▸ rfl) rfl rfl (fun kept => kept)⟩
        refine drained.other begun (queued ▸ rfl) rfl rfl rfl rfl rfl rfl fun ends => ?_
        exact absurd open_ (by rw [(drained.closed ends).1]; exact Bool.false_ne_true)
      · rename_i gone
        cases result
        rw [queued]
        refine ⟨owned.miss queued (Bool.eq_false_of_not_eq_true gone), ?_, ?_⟩
        · exact drained.other begun (queued ▸ rfl) rfl rfl rfl rfl rfl rfl drained.closed
        · exact awaited.other (queued ▸ rfl) rfl rfl (fun kept => kept)
    | send item =>
      cases result
      have holding : stage id = .holding item.1 := allowed.1
      obtain ⟨positive, sent⟩ := owned.send holding
      refine ⟨sent, ?_, awaited.other (holding ▸ rfl) rfl rfl (fun kept => kept)⟩
      refine drained.other begun (holding ▸ rfl) rfl rfl rfl rfl rfl rfl fun ends => ?_
      exact absurd (drained.closed ends).2.1 positive.ne'
    | take_sender =>
      cases result
      have reached : (stage id).next .take_sender () = stage id := rfl
      rw [reached, Function.update_eq_self]
      refine ⟨{ owned with late := fun _ _ _ => rfl }, ?_, { awaited with }⟩
      exact { drained with closed := fun ends => ⟨rfl, (drained.closed ends).2⟩ }
    | recv =>
      obtain ⟨rfl, idle⟩ := allowed
      simp only [World.exec] at result
      split at result
      · rename_i item rest waiting
        cases result
        refine ⟨owned.loop _ _ _ _ (idle ▸ rfl) rfl ?_, drained.receive idle waiting, ?_⟩
        · rw [flow, waiting, idle]
          rfl
        · exact awaited.other (idle ▸ rfl) rfl rfl (fun kept => kept)
      · rename_i empty
        split at result
        · rename_i closes
          cases result
          refine ⟨owned.loop _ _ _ _ (idle ▸ rfl) rfl ?_, drained.close idle empty closes, ?_⟩
          · rw [flow, idle]
            rfl
          · exact awaited.other (idle ▸ rfl) rfl rfl (fun kept => kept)
        · cases result
    | acquire =>
      obtain ⟨rfl, item, taken⟩ := allowed
      simp only [World.exec] at result
      split at result
      · rename_i available
        cases result
        have reached : (stage .uploader).next .acquire () = .permitted item := by
          rw [taken]
          rfl
        rw [reached]
        refine ⟨owned.loop _ _ _ _ (taken ▸ rfl) rfl ?_, drained.acquire taken available, ?_⟩
        · rw [flow, taken]
          rfl
        · exact awaited.other (taken ▸ rfl) rfl rfl (fun kept => kept)
      · cases result
    | spawn item =>
      obtain ⟨rfl, permitted⟩ := allowed
      cases result
      refine ⟨owned.loop _ _ _ _ (permitted ▸ rfl) rfl ?_, drained.spawn permitted, ?_⟩
      · rw [flow, permitted, List.map_append, List.append_assoc]
        rfl
      · exact awaited.other (permitted ▸ rfl) rfl rfl (fun kept => kept)
    | drop_permit =>
      have idle : stage id = .idle := allowed
      cases id with
      | upload number =>
        cases result
        have sameFlow : flow (Function.update stage (.upload number) .dropped) before =
            flow stage before := flow_update _ (by rw [idle]; rfl)
        refine ⟨owned.other (idle ▸ rfl) rfl sameFlow rfl rfl (fun kept => kept), ?_, ?_⟩
        · exact drained.drop (begun number rfl) idle
        · exact awaited.other (idle ▸ rfl) rfl rfl (fun kept => kept)
      | _ => cases result
    | join_uploads =>
      obtain ⟨rfl, closed⟩ := allowed
      simp only [World.exec] at result
      split at result
      · rename_i none
        cases result
        refine ⟨owned.loop _ _ _ _ (closed ▸ rfl) rfl ?_, drained.join closed none, ?_⟩
        · rw [flow, closed]
          rfl
        · exact awaited.other (closed ▸ rfl) rfl rfl fun _ => rfl
      · cases result
    | take_uploader =>
      cases result
      have idle : stage id = .idle := allowed.1
      have reached : (stage id).next .take_uploader before.uploader =
          if before.uploader = true then .joining else .unawaited := rfl
      refine ⟨?_, ?_, awaited.take idle⟩
      · have key : ((stage id).next .take_uploader before.uploader).key = none := by
          rw [reached]
          split <;> rfl
        refine owned.other (idle ▸ rfl) key (flow_update _ ?_) rfl rfl (fun kept => kept)
        rw [reached, idle]
        split <;> rfl
      · refine drained.other begun (idle ▸ rfl) ?_ rfl rfl rfl rfl rfl drained.closed
        rw [reached]
        split <;> rfl
    | join_uploader =>
      have joining : stage id = .joining := allowed
      simp only [World.exec] at result
      split at result
      · rename_i done
        cases result
        refine ⟨?_, ?_, awaited.join done⟩
        · exact owned.other (joining ▸ rfl) rfl (flow_update _ (by rw [joining]; rfl)) rfl rfl
            (fun kept => kept)
        · exact drained.other begun (joining ▸ rfl) rfl rfl rfl rfl rfl rfl drained.closed
      · cases result
    | _ => cases moving

end Steps

end Delivery

end Cicache
