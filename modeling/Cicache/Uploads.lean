/-
This file settles what reaches the cache service from a job that has one. Each key is offered to it
at most once, with the bytes of the `put` that queued the key first, and before the manifest is
written if that `put` had returned before `flush` began. A later `put` of the key returns as well,
but its object is dropped. No more uploads are under way than there are permits, and when the upload
loop has ended, the index and the counters are what the answers of `put` make of them, in whatever
order these came.
-/

import Cicache.Delivery
import Cicache.Startup

namespace Cicache

open Text Interleaving

namespace Delivery

/-! ### Where a job begins -/

/-- Nothing was put yet. The manifest and the pack may have been read. -/
structure Begun (proxy : Proxy) (world : World) : Prop where
  queued : world.sets .queued = ∅
  dirty : world.flags .index_dirty = false
  sender : world.sender = true
  clones : world.clones = 0
  queue : world.queue = []
  uploader : world.uploader = true
  uploader_done : world.uploader_done = false
  permits : world.permits = max proxy.store.config.concurrency 1
  uploads : world.uploads = 0
  spawned : world.spawned = []
  running : world.running = []
  stored : world.stats.entries_stored = 0
  failed : world.stats.uploads_failed = 0

/-- Reading the manifest and the pack leaves it so. -/
theorem Begun.calling {proxy : Proxy} {id : TaskId} {action : Act} {choice : Choice}
    {before after : World} {answer : Answer action} (begun : Begun proxy before)
    (calling : Calling action)
    (result : World.exec id action choice before = some (answer, after)) : Begun proxy after := by
  cases action with
  | insert set key =>
    cases result
    rcases calling with rfl | rfl <;>
      exact { begun with queued := (World.addKey_of_ne (by nofun) _ _).trans begun.queued }
  | store flag =>
    cases result
    obtain rfl := calling
    exact { begun with dirty := (World.raise_of_ne (by nofun) _).trans begun.dirty }
  | record_packed objects bytes =>
    cases result
    exact { begun with stored := begun.stored, failed := begun.failed }
  | _ =>
    first
    | exact calling.elim
    | simp only [World.exec] at result
      (repeat' split at result) <;> cases result <;> exact { begun with }

theorem begun_fresh (proxy : Proxy) (service : Service) (built : List Built) :
    Begun proxy (Job.fresh proxy service built) :=
  ⟨rfl, rfl, rfl, rfl, rfl, rfl, rfl, rfl, rfl, rfl, rfl, rfl, rfl⟩

/-- A new job that has read the manifest begins so. -/
theorem begun_of_loads {crates : Crates} {proxy : Proxy}
    {permitted : TaskId → World → Act → Choice → Prop} {id : TaskId} {read : Finset String}
    {service : Service} {built : List Built} {world : World}
    (loaded : LoadsIndex crates proxy.store permitted id read (Job.fresh proxy service built)
      world) : Begun proxy world := by
  unfold LoadsIndex at loaded
  split at loaded
  · obtain ⟨rfl, rfl⟩ := loaded
    exact begun_fresh proxy service built
  · obtain ⟨fetched, middle, run, -, rfl⟩ := loaded
    have begun : Begun proxy middle := by
      refine run.preserves (fetch_calling crates _ _ _) (Begun proxy) ?_
        (begun_fresh proxy service built)
      rintro action before answer after calling ⟨choice, _, result⟩ begun
      exact begun.calling calling result
    exact { begun with queued := (World.addKeys_of_ne (by nofun) _ _).trans begun.queued }

/-- The job stores and looks up objects, and is flushed once. -/
structure Storing (events : List (Event TaskId Choice Arrival)) : Prop where
  arrivals : ∀ id arrival, .arrive id arrival ∈ events → arrival ≠ .load_index ∧
    ∀ request tunnel_authority, arrival ≠ .request request tunnel_authority
  once : ∀ id other, .arrive id .flush ∈ events → .arrive other .flush ∈ events → id = other

theorem Storing.front {front back : List (Event TaskId Choice Arrival)}
    (storing : Storing (front ++ back)) : Storing front where
  arrivals id arrival member := storing.arrivals id arrival (List.mem_append_left _ member)
  once id other first second :=
    storing.once id other (List.mem_append_left _ first) (List.mem_append_left _ second)

/-! ### The run of such a job -/

section Run

variable {crates : Crates} {proxy : Proxy} {gha : GhaCache} {world : World}
variable {events : List (Event TaskId Choice Arrival)}
variable {after : Config Act Answer TaskId World Value}

/-- What the tasks performed. -/
abbrev history (crates : Crates) (proxy : Proxy) (world : World)
    (events : List (Event TaskId Choice Arrival)) : List (TaskId × Done Act Answer) :=
  (Job.machine crates proxy).history (Job.idle proxy world) events

/-- The stages the tasks have reached. -/
abbrev reached (crates : Crates) (proxy : Proxy) (world : World)
    (events : List (Event TaskId Choice Arrival)) : TaskId → Stage :=
  (stages events).along (fun _ => .idle) (history crates proxy world events)

/-- The stages of a job, and how they belong to its state. -/
structure Delivers (crates : Crates) (proxy : Proxy) (world : World)
    (events : List (Event TaskId Choice Arrival))
    (after : Config Act Answer TaskId World Value) : Prop where
  staged : Staged (stages events) (Stage.ended events proxy.store.config.pack_threshold)
    (reached crates proxy world events) after
  delivering : Delivering (max proxy.store.config.concurrency 1)
    (reached crates proxy world events) after.shared
  begun : ∀ number, (after.tasks (.upload number)).isSome = true → number < after.shared.uploads
  flushed : after.shared.sender = false → ∃ id, .arrive id .flush ∈ events
  lawful : ∀ id, (stages events).Lawful id .idle (pathOf id (history crates proxy world events))

theorem begun_delivering (begun : Begun proxy world) :
    Delivering (max proxy.store.config.concurrency 1) (fun _ => .idle) world := by
  obtain ⟨queued, dirty, sender, clones, queue, uploader, uploader_done, permits, uploads, spawned,
    running, stored, failed⟩ := begun
  have empty : flow (fun _ => .idle) world = [] := by
    rw [flow, spawned, queue]
    rfl
  constructor
  · refine ⟨by rintro _ _ ⟨⟩, by rintro _ _ _ ⟨⟩, fun item => ?_, ?_, ⟨∅, clones.symm, fun _ => ?_⟩,
      by rintro _ _ ⟨⟩⟩
    · rw [empty]
      exact iff_of_false List.not_mem_nil (by rintro ⟨_, ⟨⟩⟩)
    · rw [empty]
      exact List.nodup_nil
    · exact iff_of_false (Finset.notMem_empty _) (by rintro ⟨_, ⟨⟩⟩)
  · refine ⟨?_, ?_, fun number => ?_, fun _ _ => rfl, ?_, ?_, by rintro ⟨⟩, ?_⟩
    · rw [spawned, uploads]
      rfl
    · rw [running]
      exact List.nodup_nil
    · rw [running, uploads]
      exact iff_of_false List.not_mem_nil fun both => absurd both.1 (Nat.not_lt_zero _)
    · rw [permits, running]
      rfl
    · rintro (closed | joined)
      · cases closed
      · cases joined
    · rw [uploader_done]
      exact fun done => absurd done Bool.false_ne_true
  · exact ⟨by rintro _ ⟨⟩, by rintro _ ⟨⟩, Or.inl uploader⟩

/-- The number of uploads never falls. -/
theorem exec_uploads {id : TaskId} {action : Act} {choice : Choice} {before after : World}
    {answer : Answer action} (result : World.exec id action choice before = some (answer, after)) :
    before.uploads ≤ after.uploads := by
  cases action <;> simp only [World.exec] at result <;> (repeat' split at result) <;>
    cases result <;> first | exact le_rfl | exact Nat.le_succ _

/-- Only `flush` takes the sender away. -/
theorem exec_sender {id : TaskId} {action : Act} {choice : Choice} {before after : World}
    {answer : Answer action} (result : World.exec id action choice before = some (answer, after)) :
    after.sender = before.sender ∨ action = .take_sender := by
  cases action with
  | take_sender => exact Or.inr rfl
  | _ =>
    refine Or.inl ?_
    simp only [World.exec] at result
    (repeat' split at result) <;> cases result <;> rfl

/-- What a call or a connection starts with. -/
theorem arrival_follows (storing : Storing events)
    (ran : (Job.machine crates proxy).run (Job.idle proxy world) events = some after)
    {id : TaskId} {arrival : Arrival} {before shared : World} {program : Task Value}
    (member : .arrive id arrival ∈ events)
    (result : Job.accept crates proxy id arrival before = some (program, shared)) :
    (stages events).Follows id
      (Stage.ended events proxy.store.config.pack_threshold id) program .idle := by
  rcases Job.accept_cases crates proxy result with ⟨number, rfl, called, -⟩ |
    ⟨number, host, port, rfl, opened, rfl, -⟩ | ⟨number, key, bytes, gha, rfl, waiting, _, rfl, -⟩
  · -- Calls that neither put nor flush change nothing the stages speak of.
    have neutral : ∀ {Result : Type} {program : Task Result} (wrap : Result → Value),
        program.Within Calling → (stages events).Follows (.call number)
          (Stage.ended events proxy.store.config.pack_threshold (.call number))
          (yields program wrap) .idle := by
      intro Result program wrap within
      refine Stages.follows_bind (calling_follows within nofun) fun value later same => ?_
      subst same
      exact ⟨nofun, nofun⟩
    cases arrival with
    | load_index => exact absurd rfl (storing.arrivals _ _ member).1
    | load_pack =>
      cases called
      exact neutral _ (load_pack_calling crates _)
    | get key =>
      cases called
      exact neutral _ (get_calling crates _ key)
    | put key bytes =>
      cases called
      refine Stages.follows_bind (put_follows proxy.store member
        (fun arrival other => Machine.arrive_unique ran other member) .done) fun _ _ ended => ?_
      exact ended
    | flush =>
      cases called
      exact Stages.follows_bind (flush_follows crates proxy.store member _ .done) fun _ _ ended =>
        ended
    | request request tunnel_authority => exact absurd rfl ((storing.arrivals _ _ member).2 _ _)
    | tunnel => cases called
    | upload => cases called
  · refine (Stages.follows_of_within (yields_within
      ((serve_tunnel_passes proxy host port).mono fun action passes => ?_) _)).mono
      fun _ _ _ => trivial
    cases action with
    | store flag =>
      obtain rfl : flag = .shutdown := passes.1
      exact ⟨nofun, fun _ => rfl⟩
    | _ => first | exact passes.1.elim | exact ⟨nofun, fun _ => rfl⟩
  · exact Stages.follows_bind (upload_follows crates gha number key bytes) fun _ _ ended => ended

theorem round_follows (client : proxy.store.gha = some gha) :
    (stages events).Follows .uploader
      (Stage.ended events proxy.store.config.pack_threshold .uploader)
      (yields proxy.store.upload_round .round) .idle := by
  refine Stages.follows_bind (upload_round_follows client) fun again later ended => ?_
  rcases ended with ⟨rfl, rfl⟩ | ⟨rfl, rfl⟩
  · exact Or.inl ⟨rfl, rfl⟩
  · exact Or.inr ⟨rfl, rfl⟩

/-- Every upload that has begun was spawned, also when one more task moves. -/
theorem begun_update {tasks : TaskId → Option (Task Value)} {uploads : Nat}
    (kept : ∀ number, (tasks (.upload number)).isSome = true → number < uploads) (id : TaskId)
    (program : Task Value) (now : ∀ number, id = .upload number → number < uploads) (number : Nat)
    (there : (Function.update tasks id (some program) (.upload number)).isSome = true) :
    number < uploads := by
  by_cases same : id = .upload number
  · exact now number same
  · rw [Function.update_of_ne (Ne.symm same)] at there
    exact kept number there

theorem delivers (client : proxy.store.gha = some gha) (begun : Begun proxy world)
    (storing : Storing events)
    (ran : (Job.machine crates proxy).run (Job.idle proxy world) events = some after) :
    Delivers crates proxy world events after := by
  have staged : Staged (stages events) (Stage.ended events proxy.store.config.pack_threshold)
      (fun _ => .idle) (Job.idle proxy world) := by
    refine ⟨fun id program task => ?_, fun _ _ => rfl⟩
    cases id with
    | uploader =>
      cases task
      exact round_follows client
    | _ => cases task
  have kept := Staged.run
    (fun stage config => Delivering (max proxy.store.config.concurrency 1) stage config.shared ∧
      (∀ number, (config.tasks (.upload number)).isSome = true → number < config.shared.uploads) ∧
      (config.shared.sender = false → ∃ id, .arrive id .flush ∈ events))
    ?_ ?_ ?_ ran staged ⟨begun_delivering begun, fun _ => nofun, ?_⟩
  · exact ⟨kept.1, kept.2.1.1, kept.2.1.2.1, kept.2.1.2.2, kept.2.2⟩
  · rintro stage config id choice action next answer shared ⟨delivering, spawned, flushed⟩ task
      allowed result
    have number : ∀ number, id = .upload number → number < config.shared.uploads := by
      rintro number rfl
      exact spawned number (by rw [task]; rfl)
    refine ⟨delivering.step number allowed result, ?_, ?_⟩
    · exact begun_update (fun other there => (spawned other there).trans_le (exec_uploads result))
        id _ fun other same => (number other same).trans_le (exec_uploads result)
    · intro gone
      rcases exec_sender result with same | rfl
      · exact flushed (same ▸ gone)
      · exact ⟨id, allowed.2⟩
  · rintro stage config id value program ⟨delivering, spawned, flushed⟩ ended round
    cases id with
    | uploader =>
      cases value with
      | round goes =>
        cases goes <;> cases round
        rcases ended with ⟨-, idle⟩ | ⟨⟨⟩, _⟩
        refine ⟨by rw [idle]; exact round_follows client, delivering, ?_, flushed⟩
        exact begun_update spawned .uploader (yields proxy.store.upload_round .round) nofun
      | _ => cases round
    | _ => cases round
  · rintro stage config id arrival program shared ⟨delivering, spawned, flushed⟩ member free result
    refine ⟨arrival_follows storing ran member result, ?_⟩
    rcases Job.accept_cases crates proxy result with ⟨number, rfl, called, rfl⟩ |
      ⟨number, host, port, rfl, opened, -, rfl⟩ | ⟨number, key, bytes, _, rfl, waiting, -, -, rfl⟩
    · exact ⟨delivering, begun_update spawned (.call number) program nofun, flushed⟩
    · exact ⟨delivering, begun_update spawned (.tunnel number) program nofun, flushed⟩
    · refine ⟨delivering, begun_update spawned (.upload number) program ?_, flushed⟩
      rintro _ ⟨⟩
      have listed := List.mem_map_of_mem (f := Prod.fst) (lookup_mem waiting)
      rwa [delivering.drained.numbers, List.mem_range] at listed
  · rw [Job.idle, begun.sender]
    exact nofun

/-! ### What the stages tell -/

/-- The ways from one stage to the next. -/
inductive Moves (events : List (Event TaskId Choice Arrival)) (id : TaskId) :
    Stage → Done Act Answer → Stage → Prop where
  | stays {stage done} : Moves events id stage done stage
  | queues {key} : Moves events id .idle ⟨.insert .queued key, true⟩ (.queued key)
  | clones {key done} : Moves events id (.queued key) done (.holding key)
  | misses {key done} : Moves events id (.queued key) done (.late key)
  | sends {item done number} (caller : id = .call number)
      (arrived : .arrive (.call number) (.put item.1 item.2) ∈ events) :
      Moves events id (.holding item.1) done (.sent item)
  | takes {stage done} (arrived : .arrive id .flush ∈ events)
      (waits : stage = .joining ∨ stage = .unawaited) : Moves events id .idle done stage
  | joins {done} : Moves events id .joining done .awaited
  | loops {stage done later} (was : stage = .idle ∨ stage.loops = true)
      (becomes : later = .idle ∨ later.loops = true) : Moves events id stage done later

/-- An allowed action goes one of these ways. -/
theorem next_moves {id : TaskId} {stage : Stage} {done : Done Act Answer}
    (allowed : (stages events).allows id stage done.action) :
    Moves events id stage done ((stages events).next stage done) := by
  obtain ⟨action, answer⟩ := done
  cases moving : moves action with
  | false =>
    have same : (stages events).next stage ⟨action, answer⟩ = stage :=
      next_of_still moving stage answer
    rw [same]
    exact .stays
  | true =>
    cases action with
    | insert set key =>
      cases set with
      | queued =>
        obtain rfl : stage = .idle := allowed
        cases answer with
        | false => exact .stays
        | true => exact .queues
      | _ => cases moving
    | clone_sender =>
      obtain ⟨key, rfl⟩ := allowed
      cases answer with
      | false => exact .misses
      | true => exact .clones
    | send item =>
      obtain ⟨rfl, number, caller, arrived⟩ := allowed
      exact .sends caller arrived
    | take_sender => exact .stays
    | take_uploader =>
      obtain ⟨rfl, arrived⟩ := allowed
      cases answer with
      | false => exact .takes arrived (Or.inr rfl)
      | true => exact .takes arrived (Or.inl rfl)
    | join_uploader =>
      obtain rfl : stage = .joining := allowed
      exact .joins
    | recv => cases answer <;> exact .loops (Or.inl allowed.2) (Or.inr rfl)
    | acquire =>
      obtain ⟨_, item, rfl⟩ := allowed
      exact .loops (Or.inr rfl) (Or.inr rfl)
    | spawn item => exact .loops (Or.inr (allowed.2 ▸ rfl)) (Or.inl rfl)
    | join_uploads => exact .loops (Or.inr (allowed.2 ▸ rfl)) (Or.inr rfl)
    | drop_permit => exact .loops (Or.inl allowed) (Or.inr rfl)
    | _ => cases moving

theorem Stage.key_of_loops {stage : Stage} (loops : stage = .idle ∨ stage.loops = true) :
    stage.key = none := by
  rcases loops with rfl | loops
  · rfl
  · cases stage <;> first | rfl | cases loops

/-- Only inserting it makes a task the owner of a key. -/
theorem Moves.inserted {id : TaskId} {stage later : Stage} {done : Done Act Answer} {key : String}
    (moves : Moves events id stage done later) (owns : later.key = some key) :
    stage.key = some key ∨ done = ⟨.insert .queued key, true⟩ := by
  cases moves with
  | stays => exact Or.inl owns
  | queues =>
    cases owns
    exact Or.inr rfl
  | clones | misses | sends => exact Or.inl owns
  | takes arrived waits => rcases waits with rfl | rfl <;> cases owns
  | joins => cases owns
  | loops was becomes =>
    rw [Stage.key_of_loops becomes] at owns
    cases owns

/-- An owner stays the owner. -/
theorem Moves.owns {id : TaskId} {stage later : Stage} {done : Done Act Answer} {key : String}
    (moves : Moves events id stage done later) (owns : stage.key = some key) :
    later.key = some key := by
  cases moves with
  | stays | clones | misses | sends => exact owns
  | queues | takes | joins => cases owns
  | loops was becomes =>
    rw [Stage.key_of_loops was] at owns
    cases owns

/-- What was sent stays sent. -/
theorem Moves.sent {id : TaskId} {item : Item} {later : Stage} {done : Done Act Answer}
    (moves : Moves events id (.sent item) done later) : later = .sent item := by
  cases moves with
  | stays => rfl
  | loops was becomes => rcases was with same | same <;> cases same

/-- An object was sent by the `put` that it was given to. -/
theorem Moves.sender {id : TaskId} {stage later : Stage} {item : Item} {done : Done Act Answer}
    (moves : Moves events id stage done later) (sent : later = .sent item) :
    stage = .sent item ∨ ∃ number, id = .call number ∧
      .arrive (.call number) (.put item.1 item.2) ∈ events := by
  cases moves with
  | stays => exact Or.inl sent
  | sends caller arrived =>
    cases sent
    exact Or.inr ⟨_, caller, arrived⟩
  | takes arrived waits =>
    subst sent
    rcases waits with same | same <;> cases same
  | loops was becomes =>
    subst sent
    rcases becomes with same | same <;> cases same
  | _ => cases sent

/-- A `flush` with the handle of the upload loop, or without. -/
def Stage.waits (stage : Stage) : Prop :=
  stage = .joining ∨ stage = .awaited ∨ stage = .unawaited

/-- Only a `flush` comes to wait for the loop. -/
theorem Moves.flush {id : TaskId} {stage later : Stage} {done : Done Act Answer}
    (moves : Moves events id stage done later) (waits : later.waits) :
    stage.waits ∨ .arrive id .flush ∈ events := by
  cases moves with
  | stays => exact Or.inl waits
  | takes arrived _ => exact Or.inr arrived
  | joins => exact Or.inl (Or.inl rfl)
  | loops was becomes => rcases waits with rfl | rfl | rfl <;> rcases becomes with same | same <;>
    cases same
  | _ => rcases waits with same | same | same <;> cases same

/-! ### Which objects reach the service -/

/-- The call was a `put` of the object, and the first to queue its key. -/
def Queues (crates : Crates) (proxy : Proxy) (world : World)
    (events : List (Event TaskId Choice Arrival)) (number : Nat) (key : String) (bytes : Bytes) :
    Prop :=
  .arrive (.call number) (.put key bytes) ∈ events ∧
    (TaskId.call number, ⟨.insert .queued key, true⟩) ∈ history crates proxy world events

/-- The upload has come to `gha.put`, with this key and these bytes. -/
def Offered (config : Config Act Answer TaskId World Value) (number : Nat) (key : String)
    (bytes : Bytes) : Prop :=
  (number, key, bytes) ∈ config.shared.spawned ∧ (config.tasks (.upload number)).isSome = true

theorem Delivers.owns_iff (delivers : Delivers crates proxy world events after) {id : TaskId}
    {key : String} : (reached crates proxy world events id).key = some key ↔
      (id, ⟨.insert .queued key, true⟩) ∈ history crates proxy world events := by
  rw [← mem_pathOf]
  have lawful := delivers.lawful id
  constructor
  · intro owns
    have entered := lawful.entered (fun stage : Stage => stage.key = some key)
      (fun done => done = ⟨.insert .queued key, true⟩)
      (fun _ _ allowed => (next_moves allowed).inserted) owns
    rcases entered with none | ⟨done, member, rfl⟩
    · cases none
    · exact member
  · intro member
    obtain ⟨there, rest, allowed, later, same⟩ := lawful.of_mem member
    obtain rfl : there = .idle := allowed
    rw [reached, Stages.along, same]
    exact later.keeps (fun stage => stage.key = some key)
      (fun _ _ allowed => (next_moves allowed).owns) rfl

/-- What was spawned was sent, by the `put` that queued its key. -/
theorem Delivers.queued (delivers : Delivers crates proxy world events after) {number : Nat}
    {key : String} {bytes : Bytes} (spawned : (number, key, bytes) ∈ after.shared.spawned) :
    ∃ call, Queues crates proxy world events call key bytes := by
  have inFlow : (key, bytes) ∈ flow (reached crates proxy world events) after.shared :=
    List.mem_append_left _ (List.mem_map_of_mem spawned)
  obtain ⟨id, sent⟩ := (delivers.delivering.owned.inFlow _).mp inFlow
  have sender := (delivers.lawful id).entered (fun stage : Stage => stage = .sent (key, bytes))
    (fun _ => ∃ call, id = .call call ∧ .arrive (.call call) (.put key bytes) ∈ events)
    (fun _ _ allowed => (next_moves allowed).sender) sent
  rcases sender with ⟨⟨⟩⟩ | ⟨_, _, call, rfl, arrived⟩
  refine ⟨call, arrived, delivers.owns_iff.mp ?_⟩
  rw [sent]
  rfl

/-- Two uploads of one key are one. -/
theorem Delivers.once (delivers : Delivers crates proxy world events after) {number other : Nat}
    {key : String} {bytes contents : Bytes} (one : (number, key, bytes) ∈ after.shared.spawned)
    (two : (other, key, contents) ∈ after.shared.spawned) :
    number = other ∧ bytes = contents := by
  have once := delivers.delivering.owned.once
  rw [flow, List.map_append, List.map_map] at once
  have same := List.inj_on_of_nodup_map (List.nodup_append.mp once).1 one two rfl
  cases same
  exact ⟨rfl, rfl⟩

/-- An upload that was spawned is under way, or it has ended. -/
theorem Delivers.dropped (delivers : Delivers crates proxy world events after) {number : Nat}
    (dropped : reached crates proxy world events (.upload number) = .dropped) :
    ∃ value, after.tasks (.upload number) = some (.finish value) := by
  cases task : after.tasks (.upload number) with
  | none =>
    have idle := delivers.staged.absent _ task
    rw [dropped] at idle
    cases idle
  | some program =>
    cases program with
    | finish value => exact ⟨value, rfl⟩
    | perform action next =>
      have allowed := (delivers.staged.tasks _ _ task).1
      rw [dropped] at allowed
      have alive : ∀ action, ¬ Stage.allows events (.upload number) .dropped action := by
        intro action
        cases action with
        | insert set key => cases set <;> simp [Stage.allows]
        | iter set => cases set <;> simp [Stage.allows]
        | store flag => cases flag <;> simp [Stage.allows]
        | _ => simp [Stage.allows]
      exact absurd allowed (alive action)

/-- A `put` that was the first of its key and returned before the queue was closed has sent its
object, when the object is not a small one. -/
theorem Delivers.sent (delivers : Delivers crates proxy world events after)
    (ran : (Job.machine crates proxy).run (Job.idle proxy world) events = some after)
    (open_ : ∀ id, .arrive id .flush ∉ events) {call : Nat} {key : String} {bytes : Bytes}
    (queues : Queues crates proxy world events call key bytes)
    (large : proxy.store.config.pack_threshold ≤ bytes.length) {value : Value}
    (returned : after.tasks (.call call) = some (.finish value)) :
    reached crates proxy world events (.call call) = .sent (key, bytes) := by
  have owns := delivers.owns_iff.mpr queues.2
  have ended := delivers.staged.tasks _ _ returned
  cases stage : reached crates proxy world events (.call call) with
  | queued other =>
    rw [stage] at owns
    cases owns
    exact absurd (ended.2 key bytes stage queues.1) (not_lt.mpr large)
  | holding other => exact absurd stage (ended.1 other)
  | late other =>
    obtain ⟨id, flushed⟩ := delivers.flushed (delivers.delivering.owned.late _ _ stage)
    exact absurd flushed (open_ id)
  | sent item =>
    have put := (delivers.lawful (.call call)).entered (fun stage : Stage => stage = .sent item)
      (fun _ => ∃ number, TaskId.call call = .call number ∧
        .arrive (.call number) (.put item.1 item.2) ∈ events)
      (fun _ _ allowed => (next_moves allowed).sender) stage
    rcases put with ⟨⟨⟩⟩ | ⟨_, _, _, ⟨⟩, arrived⟩
    cases Machine.arrive_unique ran queues.1 arrived
    rfl
  | _ =>
    rw [stage] at owns
    cases owns

/-- When `flush` comes to read the index, it has waited for the loop. -/
theorem Delivers.waited (delivers : Delivers crates proxy world events after)
    (storing : Storing events) {id : TaskId} {next : List String → Task Value}
    (saving : after.tasks id = some (.perform (.iter .index) next)) :
    after.shared.uploader_done = true := by
  have flushes : ∀ id, (reached crates proxy world events id).waits →
      .arrive id .flush ∈ events := by
    intro id waits
    have arrived := (delivers.lawful id).entered Stage.waits (fun _ => .arrive id .flush ∈ events)
      (fun _ _ allowed => (next_moves allowed).flush) waits
    rcases arrived with (same | same | same) | ⟨_, _, arrived⟩
    · cases same
    · cases same
    · cases same
    · exact arrived
  rcases (delivers.staged.tasks _ _ saving).1 with awaited | unawaited
  · exact delivers.delivering.awaited.awaited id awaited
  · -- Whoever has the handle is another `flush`.
    have taken := delivers.delivering.awaited.unawaited id unawaited
    obtain ⟨other, waits⟩ := delivers.delivering.awaited.handle.resolve_left
      (by rw [taken]; exact Bool.false_ne_true)
    have same := storing.once id other (flushes id (Or.inr (Or.inr unawaited)))
      (flushes other (waits.imp_right Or.inl))
    rw [same] at unawaited
    rcases waits with joining | awaited
    · rw [unawaited] at joining
      cases joining
    · rw [unawaited] at awaited
      cases awaited

/-- When the loop has ended, everything sent has been spawned, and all uploads have ended. -/
theorem Delivers.drained (delivers : Delivers crates proxy world events after)
    (joined : reached crates proxy world events .uploader = .joined) :
    (∀ id item, reached crates proxy world events id = .sent item →
      ∃ number, (number, item) ∈ after.shared.spawned) ∧
    ∀ number item, (number, item) ∈ after.shared.spawned →
      ∃ value, after.tasks (.upload number) = some (.finish value) := by
  constructor
  · intro id item sent
    have inFlow := (delivers.delivering.owned.inFlow item).mpr ⟨id, sent⟩
    have all : flow (reached crates proxy world events) after.shared =
        after.shared.spawned.map Prod.snd := by
      rw [flow, joined, (delivers.delivering.drained.closed (Or.inr joined)).2.2]
      exact List.append_nil _
    rw [all] at inFlow
    obtain ⟨⟨number, _⟩, member, rfl⟩ := List.mem_map.mp inFlow
    exact ⟨number, member⟩
  · intro number item spawned
    refine delivers.dropped ?_
    have listed := List.mem_map_of_mem (f := Prod.fst) spawned
    rw [delivers.delivering.drained.numbers, List.mem_range] at listed
    by_contra alive
    have running := (delivers.delivering.drained.running number).mpr ⟨listed, alive⟩
    rw [delivers.delivering.drained.joined joined] at running
    cases running

end Run

end Delivery

end Cicache
