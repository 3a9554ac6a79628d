/-
This file follows which keys are marked as packed. `load_pack` marks the keys it has unpacked, and
a `put` that is the first of its key marks that key behind the write of its file if the object is a
small one; nothing else marks a key. The first `put` of a key is one and the same for all tasks. So
an object that is not small gets into a pack only where a pack that was loaded holds its key.
-/

import Cicache.Lookups
import Cicache.Lib.Stages

namespace Cicache

open Text Interleaving Program

namespace Marking

/-! ### Stages -/

/-- How far a task has got. -/
inductive Stage where
  | idle
  /-- A `put` that is the first of its key, and one that has begun to write its object. -/
  | queued (key : String)
  | storing (key : String) (bytes : Bytes)

/-- The key that a task was the first to put. -/
def Stage.key : Stage → Option String
  | .idle => none
  | .queued key | .storing key _ => some key

def Stage.next (stage : Stage) : Done Act Answer → Stage
  | ⟨.insert .queued key, fresh⟩ => if fresh = true then .queued key else stage
  | ⟨.write_begin _ bytes, _⟩ =>
      match stage with
      | .queued key => .storing key bytes
      | _ => stage
  | _ => stage

/-- What a task may do at a stage, with this bound on small objects, when it unpacks or not. -/
def Stage.allows (threshold : Nat) (unpacks : TaskId → Prop) (id : TaskId) (stage : Stage) :
    Act → Prop
  | .insert .queued _ => stage = .idle
  | .insert .packed key =>
      unpacks id ∨ ∃ bytes, stage = .storing key bytes ∧ bytes.length < threshold
  | _ => True

/-- The stages of a job's tasks. -/
def stages (threshold : Nat) (unpacks : TaskId → Prop) : Stages Act Answer TaskId Stage where
  first := .idle
  next := Stage.next
  allows := Stage.allows threshold unpacks

/-- The upload loop never leaves its first stage. -/
def ends (id : TaskId) (_ : Value) (stage : Stage) : Prop := id = .uploader → stage = .idle

section Paths

variable {threshold : Nat} {unpacks : TaskId → Prop} {id : TaskId} {key : String} {bytes : Bytes}
variable {path : Trail}

/-- A task that has begun to write its object stores that one and no other. -/
theorem storing_lasts (lawful : (stages threshold unpacks).Lawful id (.storing key bytes) path) :
    path.foldl (stages threshold unpacks).next (.storing key bytes) = .storing key bytes := by
  refine lawful.keeps (fun stage => stage = .storing key bytes) ?_ rfl
  rintro _ ⟨action, answer⟩ allowed rfl
  cases action with
  | insert set other =>
    cases set with
    | queued => cases allowed
    | _ => rfl
  | _ => rfl

/-- What is marked was unpacked, or is a small object that the task has begun to write. -/
theorem storing_of_marked (lawful : (stages threshold unpacks).Lawful id .idle path) {fresh : Bool}
    (marks : ⟨.insert .packed key, fresh⟩ ∈ path) :
    unpacks id ∨ ∃ bytes, (stages threshold unpacks).behind path = .storing key bytes ∧
      bytes.length < threshold := by
  obtain ⟨there, rest, allowed, later, whole⟩ := lawful.of_mem marks
  rcases allowed with unpacking | ⟨bytes, rfl, small⟩
  · exact Or.inl unpacking
  · exact Or.inr ⟨bytes, whole.trans (storing_lasts later), small⟩

/-- A task that stores an object was the first to put its key. -/
theorem queued_of_storing (lawful : (stages threshold unpacks).Lawful id .idle path)
    (stores : (stages threshold unpacks).behind path = .storing key bytes) :
    ⟨.insert .queued key, true⟩ ∈ path := by
  have step : ∀ stage done, (stages threshold unpacks).allows id stage done.action →
      ((stages threshold unpacks).next stage done).key = some key →
        stage.key = some key ∨ done = ⟨.insert .queued key, true⟩ := by
    rintro stage ⟨action, answer⟩ - leads
    cases action with
    | insert set other =>
      cases set with
      | queued =>
        cases answer with
        | false => exact Or.inl leads
        | true =>
          obtain rfl := Option.some_inj.mp leads
          exact Or.inr rfl
      | _ => exact Or.inl leads
    | write_begin file written => cases stage <;> exact Or.inl leads
    | _ => exact Or.inl leads
  have ends : ((stages threshold unpacks).behind path).key = some key := by rw [stores, Stage.key]
  rcases lawful.entered (fun stage => stage.key = some key) _ step ends with
    none | ⟨_, member, rfl⟩
  · cases none
  · exact member

/-- The task of the first `put` stores its object. -/
theorem storing_of_putFirst {store : Store}
    (lawful : (stages threshold unpacks).Lawful id .idle path)
    (put : PutFirst store key bytes path) :
    (stages threshold unpacks).behind path = .storing key bytes := by
  obtain ⟨inner, ⟨front, back, rfl⟩, finishes, first⟩ := put
  obtain ⟨writes, ok, rest, rfl, writing⟩ := put_first finishes first
  obtain ⟨opened, more, rfl, -⟩ := (finishes_act ..).mp writing
  rw [List.append_assoc] at lawful ⊢
  obtain ⟨-, allowed, -, later⟩ := lawful.append
  have unbegun : front.foldl (stages threshold unpacks).next .idle = .idle := allowed
  rw [unbegun] at later
  show (front ++ _).foldl (stages threshold unpacks).next .idle = _
  rw [List.foldl_append, unbegun]
  exact storing_lasts later

end Paths

/-! ### The programs follow the stages -/

/-- The actions that neither queue nor mark a key. -/
def Aside : Act → Prop
  | .insert set _ => set ≠ .queued ∧ set ≠ .packed
  | _ => True

theorem asking_aside {action : Act} (asking : Asking action) : Aside action := by
  cases action with
  | insert set key => exact asking.elim
  | _ => trivial

theorem forwarding_aside {action : Act} (forwarding : Forwarding action) : Aside action := by
  cases action with
  | insert set key => exact forwarding.elim
  | _ => trivial

theorem draining_aside {action : Act} (draining : Draining action) : Aside action := by
  cases action with
  | insert set key => exact draining.elim
  | _ => trivial

section Programs

variable {threshold : Nat} {unpacks : TaskId → Prop} {id : TaskId}

theorem Aside.rests {action : Act} (aside : Aside action) :
    (stages threshold unpacks).Rests id .idle action := by
  cases action with
  | insert set key =>
    cases set with
    | queued => exact absurd rfl aside.1
    | packed => exact absurd rfl aside.2
    | _ => exact ⟨trivial, fun _ => rfl⟩
  | _ => exact ⟨trivial, fun _ => rfl⟩

theorem aside_follows {Result : Type} {program : Task Result} (within : program.Within Aside) :
    (stages threshold unpacks).Follows id (fun _ later => later = .idle) program .idle :=
  Stages.follows_of_within (within.mono fun _ => Aside.rests)

theorem get_aside (crates : Crates) (store : Store) (key : String) :
    (store.get crates key).Within Aside := by
  unfold Store.get
  refine .act trivial fun bytes => ?_
  cases bytes with
  | some bytes => exact trivial
  | none =>
    dsimp only
    split
    · exact trivial
    · refine .act trivial fun known => ?_
      split
      · refine .act trivial fun missed => ?_
        split
        · exact trivial
        · refine ((fetch_asking crates _ _ _).mono fun _ => asking_aside).bind fun fetched => ?_
          rcases fetched with err | (_ | bytes)
          · exact .act ⟨nofun, nofun⟩ fun _ => trivial
          · exact .act ⟨nofun, nofun⟩ fun _ => trivial
          · exact (write_within trivial trivial).bind fun _ => trivial
      · exact trivial

theorem put_scoped_aside (crates : Crates) (gha : GhaCache) (run key_prefix scope kind : String)
    (body : Bytes) : (gha.put_scoped crates run key_prefix scope kind body).Within Aside :=
  (put_scoped_asking crates gha run key_prefix scope kind body).mono fun _ => asking_aside

theorem save_index_aside (crates : Crates) (store : Store) :
    (store.save_index crates).Within Aside := by
  unfold Store.save_index
  split
  · exact trivial
  · refine .act trivial fun dirty => ?_
    split
    · refine .act trivial fun keys => (put_scoped_aside ..).bind fun stored => ?_
      cases stored <;> exact trivial
    · exact trivial

theorem save_pack_aside (crates : Crates) (store : Store) :
    (store.save_pack crates).Within Aside := by
  have gathers : ∀ keys, (store.gather keys).Within Aside := by
    intro keys
    induction keys with
    | nil => exact trivial
    | cons key rest inductionHypothesis =>
      unfold Store.gather
      refine .act trivial fun body => ?_
      cases body with
      | none => exact inductionHypothesis
      | some body => exact inductionHypothesis.bind fun _ => trivial
  unfold Store.save_pack
  split
  · exact trivial
  · refine .act trivial fun dirty => ?_
    split
    · refine .act trivial fun keys => (gathers _).bind fun objects => ?_
      dsimp only
      split
      · exact trivial
      · refine (put_scoped_aside ..).bind fun stored => ?_
        cases stored with
        | error err => exact trivial
        | ok _ => exact .act trivial fun _ => trivial
    · exact trivial

theorem flush_aside (crates : Crates) (store : Store) : (store.flush crates).Within Aside := by
  unfold Store.flush
  refine .act trivial fun _ => .act trivial fun handle => ?_
  refine Program.Within.bind ?_ fun _ =>
    (save_index_aside crates store).bind fun _ => save_pack_aside crates store
  unfold Store.await_uploader
  split
  · exact ⟨trivial, fun _ => trivial⟩
  · exact trivial

theorem put_follows (store : Store) (key : String) (bytes : Bytes) :
    (stages store.config.pack_threshold unpacks).Follows id (fun _ _ => True)
      (store.put key bytes) .idle := by
  have writes : (stages store.config.pack_threshold unpacks).Follows id
      (fun _ later => later = .storing key bytes) (write (store.path key) bytes) (.queued key) := by
    unfold write
    refine Stages.follows_act trivial fun opened => ?_
    cases opened with
    | false => rfl
    | true => exact ⟨trivial, fun _ => rfl⟩
  unfold Store.put
  refine Stages.follows_act rfl fun fresh => ?_
  cases fresh with
  | false => exact trivial
  | true =>
    refine Stages.follows_bind writes fun _ later same => ?_
    subst same
    split
    · rename_i small
      refine Stages.follows_act (Or.inr ⟨bytes, rfl, small⟩) fun added => ?_
      cases added with
      | false => exact trivial
      | true => exact ⟨trivial, fun _ => trivial⟩
    · refine Stages.follows_act trivial fun cloned => ?_
      cases cloned with
      | false => exact trivial
      | true => exact ⟨trivial, fun _ => trivial⟩

theorem fetch_and_store_follows (crates : Crates) (proxy : Proxy) (method : Method) (url : Url)
    (client_headers : HeaderMap) (key : String) :
    (stages proxy.store.config.pack_threshold unpacks).Follows id (fun _ _ => True)
      (proxy.fetch_and_store crates method url client_headers key) .idle := by
  have stores : ∀ status headers body,
      (stages proxy.store.config.pack_threshold unpacks).Follows id (fun _ _ => True)
        (proxy.store_response crates url status headers body key) .idle := by
    intro status headers body
    unfold Proxy.store_response
    split
    · refine Stages.follows_act trivial fun stored_at => ?_
      split
      · exact Stages.follows_bind (put_follows _ _ _) fun _ _ _ => trivial
      · exact trivial
    · exact trivial
  unfold Proxy.fetch_and_store
  refine Stages.follows_act trivial fun answer => ?_
  cases answer with
  | error err => exact trivial
  | ok response =>
    dsimp only
    split
    · exact Stages.follows_act trivial fun _ => Stages.follows_act trivial fun _ => trivial
    · split
      · exact trivial
      · exact Stages.follows_act trivial fun _ => Stages.follows_bind (stores _ _ _) fun _ _ _ =>
          Stages.follows_act trivial fun _ => trivial

theorem handle_follows (crates : Crates) (proxy : Proxy) (method : Method)
    (client_headers : HeaderMap) (url : Url) :
    (stages proxy.store.config.pack_threshold unpacks).Follows id (fun _ _ => True)
      (proxy.handle crates method client_headers url) .idle := by
  have looks : ∀ key, (proxy.lookup crates key).Within Aside := by
    intro key
    unfold Proxy.lookup
    refine (get_aside crates proxy.store key).bind fun raw => ?_
    cases raw with
    | none => exact trivial
    | some raw =>
      dsimp only
      split <;> exact trivial
  unfold Proxy.handle
  refine Stages.follows_act trivial fun collected => ?_
  cases collected with
  | error err => exact trivial
  | ok body =>
    dsimp only
    split
    · exact (aside_follows ((forward_passes _ _ _ _ _).mono fun _ passes =>
        forwarding_aside passes.1)).mono fun _ _ _ => trivial
    · refine Stages.follows_bind (aside_follows (looks _)) fun found later same => ?_
      subst same
      cases found with
      | some entry => exact Stages.follows_act trivial fun _ => trivial
      | none => exact fetch_and_store_follows crates proxy _ _ _ _

theorem dispatch_follows (crates : Crates) (proxy : Proxy) (request : ClientRequest)
    (tunnel_authority : Option String) :
    (stages proxy.store.config.pack_threshold unpacks).Follows id (fun _ _ => True)
      (proxy.dispatch crates request tunnel_authority) .idle := by
  unfold Proxy.dispatch
  split
  · exact (aside_follows ((connect_passes _).mono fun _ passes =>
      forwarding_aside passes.1)).mono fun _ _ _ => trivial
  · split
    · unfold Proxy.control
      split
      · exact trivial
      · split
        · exact Stages.follows_act trivial fun _ => trivial
        · split
          · exact Stages.follows_act trivial fun _ => trivial
          · exact trivial
    · unfold Proxy.proxied
      split
      · exact trivial
      · refine Stages.follows_bind (handle_follows crates proxy _ _ _) fun result _ _ => ?_
        cases result with
        | ok response => exact trivial
        | error message => exact Stages.follows_act trivial fun _ => trivial

theorem load_pack_follows (crates : Crates) (store : Store) (loads : unpacks id) :
    (stages threshold unpacks).Follows id (fun _ later => later = .idle)
      (store.load_pack crates) .idle := by
  refine Stages.follows_of_within ((load_pack_retrieving crates store).mono fun action within => ?_)
  cases action with
  | insert set key =>
    rcases within with rfl | rfl
    · exact ⟨trivial, fun _ => rfl⟩
    · exact ⟨Or.inl loads, fun _ => rfl⟩
  | _ => exact ⟨trivial, fun _ => rfl⟩

end Programs

/-! ### Every run -/

section Run

variable {crates : Crates} {proxy : Proxy} {service : Service} {built : List Built}
variable {events : List (Event TaskId Choice Arrival)}
variable {after : Config Act Answer TaskId World Value}

/-- A task that unpacks. -/
def Unpacks (events : List (Event TaskId Choice Arrival)) (id : TaskId) : Prop :=
  .arrive id .load_pack ∈ events

theorem round_follows {threshold : Nat} {unpacks : TaskId → Prop} :
    (stages threshold unpacks).Follows .uploader (ends .uploader)
      (yields proxy.store.upload_round .round) .idle := by
  refine Stages.follows_bind (aside_follows ((upload_round_draining _).mono
    fun _ => draining_aside)) fun _ later same => ?_
  exact fun _ => same

theorem arrival_follows {id : TaskId} {arrival : Arrival} {before shared : World}
    {program : Task Value} (member : .arrive id arrival ∈ events)
    (accepted : Job.accept crates proxy id arrival before = some (program, shared)) :
    (stages proxy.store.config.pack_threshold (Unpacks events)).Follows id (ends id) program
      .idle := by
  have yielded : ∀ {Result : Type} {begun : Task Result} {wrap : Result → Value},
      (stages proxy.store.config.pack_threshold (Unpacks events)).Follows id (fun _ _ => True) begun
        .idle → id ≠ .uploader →
      (stages proxy.store.config.pack_threshold (Unpacks events)).Follows id (ends id)
        (yields begun wrap) .idle := fun follows other =>
    Stages.follows_bind follows fun _ _ _ same => absurd same other
  have aside : ∀ {Result : Type} {begun : Task Result} {wrap : Result → Value},
      begun.Within Aside → id ≠ .uploader →
      (stages proxy.store.config.pack_threshold (Unpacks events)).Follows id (ends id)
        (yields begun wrap) .idle := fun within =>
    yielded ((aside_follows within).mono fun _ _ _ => trivial)
  rcases Job.accept_cases crates proxy accepted with ⟨number, rfl, called, rfl⟩ |
    ⟨number, host, port, rfl, -, rfl, rfl⟩ | ⟨number, key, bytes, gha, rfl, -, -, rfl, rfl⟩
  · cases arrival with
    | load_index =>
      cases called
      exact aside (load_index_within crates _ (fun _ => asking_aside) fun _ => ⟨nofun, nofun⟩) nofun
    | load_pack =>
      cases called
      exact yielded ((load_pack_follows crates _ member).mono fun _ _ _ => trivial) nofun
    | get key =>
      cases called
      exact aside (get_aside crates _ key) nofun
    | put key bytes =>
      cases called
      exact yielded (put_follows _ key bytes) nofun
    | flush =>
      cases called
      exact aside (flush_aside crates _) nofun
    | request request tunnel_authority =>
      cases called
      exact yielded (dispatch_follows crates proxy request tunnel_authority) nofun
    | tunnel => cases called
    | upload => cases called
  · exact aside ((serve_tunnel_passes proxy host port).mono fun _ passes =>
      forwarding_aside passes.1) nofun
  · exact aside (upload_within crates (fun _ => asking_aside) (fun _ => ⟨nofun, nofun⟩) trivial
      (fun _ _ => trivial) trivial gha key bytes) nofun

theorem lawful_of_run {world : World}
    (ran : (Job.machine crates proxy).run (Job.idle proxy world) events = some after)
    (id : TaskId) :
    (stages proxy.store.config.pack_threshold (Unpacks events)).Lawful id .idle
      (pathOf id ((Job.machine crates proxy).history (Job.idle proxy world) events)) := by
  have staged : Staged (stages proxy.store.config.pack_threshold (Unpacks events)) ends
      (fun _ => .idle) (Job.idle proxy world) := by
    constructor
    · intro id program started
      cases id with
      | uploader =>
        cases started
        exact round_follows
      | _ => cases started
    · exact fun _ _ => rfl
  refine (Staged.run (fun _ _ => True) (fun _ _ _ _ _ _ _ _ _ _ _ _ => trivial) ?_ ?_ ran staged
    trivial).2.2 id
  · intro stage config id value program _ ended round
    cases id with
    | uploader =>
      cases value with
      | round goes =>
        cases goes with
        | false => cases round
        | true =>
          cases round
          rw [ended rfl]
          exact ⟨round_follows, trivial⟩
      | _ => cases round
    | _ => cases round
  · exact fun stage config id arrival program shared _ member _ accepted =>
      ⟨arrival_follows member accepted, trivial⟩

/-- What has been done tells which keys are queued and marked: a key was queued once, and what is
marked was marked by someone. -/
structure Recorded (key : String) (past : List (TaskId × Done Act Answer)) (world : World) :
    Prop where
  queued : ∀ id, (id, ⟨.insert .queued key, true⟩) ∈ past → key ∈ world.sets .queued
  once : ∀ id other, (id, ⟨.insert .queued key, true⟩) ∈ past →
    (other, ⟨.insert .queued key, true⟩) ∈ past → id = other
  marked : key ∈ world.sets .packed → ∃ id fresh, (id, ⟨.insert .packed key, fresh⟩) ∈ past

theorem Recorded.step {key : String} {past : List (TaskId × Done Act Answer)} {id : TaskId}
    {action : Act} {choice : Choice} {before after : World} {answer : Answer action}
    (recorded : Recorded key past before)
    (result : World.exec id action choice before = some (answer, after)) :
    Recorded key (past ++ [(id, ⟨action, answer⟩)]) after := by
  have grows := exec_grows result
  -- The action queues the key only when it was not queued before.
  have queues : (⟨action, answer⟩ : Done Act Answer) = ⟨.insert .queued key, true⟩ →
      key ∉ before.sets .queued ∧ key ∈ after.sets .queued := by
    intro same
    cases same
    simp only [World.exec, Option.some.injEq, Prod.mk.injEq, decide_eq_true_eq] at result
    obtain ⟨fresh, rfl⟩ := result
    exact ⟨fresh, World.addKey_self _ _ _ ▸ Finset.mem_insert_self _ _⟩
  have entry : ∀ {mover : TaskId},
      (mover, ⟨.insert .queued key, true⟩) ∈ past ++ [(id, (⟨action, answer⟩ : Done Act Answer))] →
      (mover, ⟨.insert .queued key, true⟩) ∈ past ∨
        mover = id ∧ (⟨action, answer⟩ : Done Act Answer) = ⟨.insert .queued key, true⟩ := by
    intro mover member
    refine (List.mem_append.mp member).imp_right fun now => ?_
    cases List.mem_singleton.mp now
    exact ⟨rfl, rfl⟩
  refine ⟨fun mover member => ?_, fun mover other first second => ?_, fun member => ?_⟩
  · rcases entry member with earlier | ⟨-, now⟩
    · exact grows.sets .queued (recorded.queued mover earlier)
    · exact (queues now).2
  · rcases entry first with earlier | ⟨rfl, now⟩
    · rcases entry second with also | ⟨rfl, now⟩
      · exact recorded.once mover other earlier also
      · exact absurd (recorded.queued mover earlier) (queues now).1
    · rcases entry second with earlier | ⟨rfl, -⟩
      · exact absurd (recorded.queued other earlier) (queues now).1
      · rfl
  · have before_or : key ∈ before.sets .packed ∨ action = .insert .packed key := by
      rcases exec_sets result .packed with same | ⟨other, inserts, sets⟩
      · exact Or.inl (same ▸ member)
      · rw [sets] at member
        refine (Finset.mem_insert.mp member).symm.imp_right fun same => ?_
        rw [same, inserts]
    rcases before_or with earlier | inserts
    · obtain ⟨mover, fresh, marks⟩ := recorded.marked earlier
      exact ⟨mover, fresh, List.mem_append_left _ marks⟩
    · subst inserts
      exact ⟨id, answer, List.mem_append_right _ List.mem_cons_self⟩

variable (ran : (Job.machine crates proxy).run (Job.idle proxy (Job.fresh proxy service built))
  events = some after)

include ran

theorem recorded_of_run (key : String) : Recorded key
    ((Job.machine crates proxy).history (Job.idle proxy (Job.fresh proxy service built)) events)
    after.shared := by
  have fresh : Recorded key [] (Job.fresh proxy service built) :=
    ⟨fun _ none => absurd none List.not_mem_nil, fun _ _ none => absurd none List.not_mem_nil,
      fun none => absurd none (Finset.notMem_empty key)⟩
  refine Machine.history_preserves ran (Recorded key) ?_ ?_ fresh
  · exact fun past id action choice before answer shared recorded result => recorded.step result
  · intro past id arrival before program shared recorded result
    rcases Job.accept_cases crates proxy result with ⟨_, _, _, rfl⟩ | ⟨_, _, _, _, _, _, rfl⟩ |
      ⟨_, _, _, _, _, _, _, _, rfl⟩ <;> exact recorded

/-- Where the first `put` of a key is that of an object which is not small, the key is marked only
by unpacking it. -/
theorem small_or_unpacked {key : String} {bytes : Bytes} {id : TaskId}
    (put : PutFirst proxy.store key bytes (pathOf id ((Job.machine crates proxy).history
      (Job.idle proxy (Job.fresh proxy service built)) events)))
    (packed : key ∈ after.shared.sets .packed) :
    bytes.length < proxy.store.config.pack_threshold ∨
      ∃ other fresh, .arrive other .load_pack ∈ events ∧
        (other, ⟨.insert .packed key, fresh⟩) ∈ (Job.machine crates proxy).history
          (Job.idle proxy (Job.fresh proxy service built)) events := by
  have recorded := recorded_of_run ran key
  have stores := storing_of_putFirst (lawful_of_run ran id) put
  obtain ⟨other, fresh, marks⟩ := recorded.marked packed
  rcases storing_of_marked (lawful_of_run ran other) (mem_pathOf.mpr marks) with
    unpacks | ⟨contents, also, small⟩
  · exact Or.inr ⟨other, fresh, unpacks, marks⟩
  -- The task that marks the key was the first to put it, and so is the one that stores the object.
  · have queued := mem_pathOf.mp (queued_of_storing (lawful_of_run ran id) stores)
    have alsoQueued := mem_pathOf.mp (queued_of_storing (lawful_of_run ran other) also)
    obtain rfl := recorded.once id other queued alsoQueued
    cases stores.symm.trans also
    exact Or.inl small

end Run

end Marking

end Cicache
