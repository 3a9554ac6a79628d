/-
This file shows that a job always comes to rest. As long as nobody makes a further call, whatever
the order of the tasks and whatever the service, the disk and the upstream servers answer, every
call returns, every connection and every upload ends, and the queue runs empty; and once a `flush`
has taken the sender away, the upload loop ends as well. A `flush` is one of the calls: no order of
the tasks keeps it waiting for good.

The stages of the delivery say who holds what. They are followed here for calls of every kind, so
that requests to the proxy count as well.
-/

import Cicache.Index
import Cicache.Uploads
import Cicache.Lib.Ending

namespace Cicache

open Text Interleaving

theorem Forwarding.still {action : Act} (forwarding : Forwarding action) :
    Delivery.moves action = false := by
  cases action with
  | _ => first | rfl | exact forwarding.elim

theorem Calling.still {action : Act} (calling : Calling action) :
    Delivery.moves action = false := by
  cases action with
  | insert set key => rcases calling with rfl | rfl <;> rfl
  | _ => first | rfl | exact calling.elim

theorem Retrieving.still {action : Act} (retrieving : Retrieving action) :
    Delivery.moves action = false := retrieving.calling.still

theorem save_index_still (crates : Crates) (store : Store) :
    (store.save_index crates).Within fun action => Delivery.moves action = false := by
  unfold Store.save_index
  split
  · exact trivial
  · refine .act rfl fun dirty => ?_
    split
    · refine .act rfl fun keys =>
        ((put_scoped_calling crates _ _ _ _ _ _).mono fun _ calling => calling.still).bind
          fun stored => ?_
      cases stored <;> exact trivial
    · exact trivial

namespace Delivery

/-! ### Stages of any call -/

/-- What a task may do at a stage, whatever call it is. -/
def Stage.admits (id : TaskId) (stage : Stage) : Act → Prop
  | .insert .queued _ => stage = .idle
  | .clone_sender => ∃ key, stage = .queued key
  | .send item => stage = .holding item.1 ∧ ∃ number, id = .call number
  | .recv => id = .uploader ∧ stage = .idle
  | .acquire => id = .uploader ∧ ∃ item, stage = .taken item
  | .spawn item => id = .uploader ∧ stage = .permitted item
  | .join_uploads => id = .uploader ∧ stage = .closed
  | .drop_permit => stage = .idle
  | .take_sender | .take_uploader => stage = .idle
  | .join_uploader => stage = .joining
  | _ => stage ≠ .dropped

/-- A call may end here: it holds no clone of the sender. -/
structure Stage.free (stage : Stage) : Prop where
  alive : stage ≠ .dropped
  empty : ∀ key, stage ≠ .holding key

/-- What a task ends as. -/
def Stage.finishes : TaskId → Value → Stage → Prop
  | .call _, _, stage | .tunnel _, _, stage => stage.free
  | .uploader, value, stage =>
      value = .round true ∧ stage = .idle ∨ value = .round false ∧ stage = .joined
  | .upload _, _, stage => stage = .dropped

/-- The stages of the tasks, whatever calls they are. -/
def anyStages : Stages Act Answer TaskId Stage where
  first := .idle
  next stage done := stage.next done.action done.answer
  allows := Stage.admits

section Programs

variable {id : TaskId} {stage : Stage}

theorem admits_of_still {action : Act} (still : moves action = false) (alive : stage ≠ .dropped) :
    stage.admits id action := by
  cases action with
  | insert set key =>
    cases set with
    | queued => cases still
    | _ => exact alive
  | _ => first | exact alive | cases still

/-- Programs that move no object and no permit leave the stage as it is. -/
theorem still_follows {Result : Type} {program : Task Result}
    (within : program.Within fun action => moves action = false) (alive : stage ≠ .dropped) :
    anyStages.Follows id (fun _ later => later = stage) program stage :=
  Stages.follows_of_within (within.mono fun _ still =>
    ⟨admits_of_still still alive, fun answer => next_of_still still stage answer⟩)

/-- One such action, and what comes behind it. -/
theorem still_act {Result : Type} {ends : Result → Stage → Prop} {action : Act}
    {next : Answer action → Task Result} (still : moves action = false) (free : stage.free)
    (rest : ∀ answer, anyStages.Follows id ends (next answer) stage) :
    anyStages.Follows id ends (act action >>= next) stage := by
  refine Stages.follows_act (admits_of_still still free.alive) fun answer => ?_
  have same : anyStages.next stage ⟨action, answer⟩ = stage := next_of_still still stage answer
  rw [same]
  exact rest answer

/-- What follows the stages of a delivery follows them in any call. -/
theorem any_of_stages {Result : Type} {ends : Result → Stage → Prop}
    {events : List (Event TaskId Choice Arrival)} {program : Task Result}
    (follows : (stages events).Follows id ends program stage) :
    anyStages.Follows id ends program stage := by
  refine follows.widen (fun _ _ => rfl) fun stage action allowed => ?_
  cases action with
  | insert set key =>
    cases set with
    | index => exact allowed.1 ▸ (by rintro ⟨⟩)
    | _ => exact allowed
  | store flag =>
    cases flag with
    | index_dirty => exact allowed.1 ▸ (by rintro ⟨⟩)
    | _ => exact allowed
  | iter set =>
    cases set with
    | index => rcases allowed with rfl | rfl <;> rintro ⟨⟩
    | _ => exact allowed
  | record_upload bytes ok => exact allowed.1 ▸ (by rintro ⟨⟩)
  | send item => exact ⟨allowed.1, allowed.2.imp fun _ caller => caller.1⟩
  | take_sender => exact allowed.1
  | take_uploader => exact allowed.1
  | _ => exact allowed

theorem idle_free : Stage.idle.free := ⟨by rintro ⟨⟩, by rintro _ ⟨⟩⟩

theorem put_free (store : Store) (number : Nat) (key : String) (bytes : Bytes) :
    anyStages.Follows (.call number) (fun _ later => later.free) (store.put key bytes) .idle := by
  unfold Store.put
  refine Stages.follows_act rfl fun fresh => ?_
  cases fresh with
  | false => exact idle_free
  | true =>
    have queued : (Stage.queued key).free := ⟨by rintro ⟨⟩, by rintro _ ⟨⟩⟩
    have writes : anyStages.Follows (.call number) (fun _ later => later = Stage.queued key)
        (write (store.path key) bytes) (.queued key) :=
      Stages.follows_of_within
        (write_within ⟨queued.alive, fun _ => rfl⟩ ⟨queued.alive, fun _ => rfl⟩)
    refine Stages.follows_bind writes fun _ later same => ?_
    · subst same
      split
      · refine still_act rfl queued fun added => ?_
        cases added with
        | false => exact queued
        | true => exact ⟨by rintro ⟨⟩, fun _ => queued⟩
      · refine Stages.follows_act ⟨key, rfl⟩ fun cloned => ?_
        cases cloned with
        | false => exact ⟨by rintro ⟨⟩, by rintro _ ⟨⟩⟩
        | true => exact ⟨⟨rfl, number, rfl⟩, fun _ => ⟨by rintro ⟨⟩, by rintro _ ⟨⟩⟩⟩

theorem flush_free (crates : Crates) (store : Store) (number : Nat) :
    anyStages.Follows (.call number) (fun _ later => later.free) (store.flush crates) .idle := by
  have saves : ∀ stage : Stage, stage.free → anyStages.Follows (.call number)
      (fun _ later => later.free)
      (store.save_index crates >>= fun _ => store.save_pack crates) stage := by
    intro stage free
    refine (still_follows ((save_index_still crates store).bind fun _ =>
      (save_pack_calling crates store).mono fun _ calling => calling.still) free.alive).mono ?_
    rintro _ later rfl
    exact free
  unfold Store.flush
  refine Stages.follows_act rfl fun _ => Stages.follows_act rfl fun handle => ?_
  cases handle with
  | false => exact saves .unawaited ⟨by rintro ⟨⟩, by rintro _ ⟨⟩⟩
  | true => exact Stages.follows_act rfl fun _ => saves .awaited ⟨by rintro ⟨⟩, by rintro _ ⟨⟩⟩

/-- A request puts at most one object into the store, and does nothing else the stages speak of. -/
theorem dispatch_free (crates : Crates) (proxy : Proxy) (number : Nat) (request : ClientRequest)
    (tunnel_authority : Option String) :
    anyStages.Follows (.call number) (fun _ later => later.free)
      (proxy.dispatch crates request tunnel_authority) .idle := by
  have forwards : ∀ {Result : Type} {program : Task Result}, program.Within Forwarding →
      anyStages.Follows (.call number) (fun _ later => later.free) program .idle :=
    fun within => (still_follows (within.mono fun _ forwarding => forwarding.still)
      idle_free.alive).mono fun _ _ same => same ▸ idle_free
  have stores : ∀ url status headers body key, anyStages.Follows (.call number)
      (fun _ later => later.free)
      (proxy.store_response crates url status headers body key) .idle := by
    intro url status headers body key
    unfold Proxy.store_response
    split
    · refine still_act rfl idle_free fun stored_at => ?_
      split
      · exact Stages.follows_bind (put_free _ number _ _) fun _ _ free => free
      · exact idle_free
    · exact idle_free
  have fetches : ∀ method url headers key, anyStages.Follows (.call number)
      (fun _ later => later.free)
      (proxy.fetch_and_store crates method url headers key) .idle := by
    intro method url headers key
    unfold Proxy.fetch_and_store
    refine still_act rfl idle_free fun answer => ?_
    cases answer with
    | error err => exact idle_free
    | ok response =>
      dsimp only
      split
      · exact still_act rfl idle_free fun _ => still_act rfl idle_free fun _ => idle_free
      · split
        · exact idle_free
        · refine still_act rfl idle_free fun millis => ?_
          refine Stages.follows_bind (stores _ _ _ _ _) fun outcome later free => ?_
          exact still_act rfl free fun _ => free
  have handles : ∀ method headers url, anyStages.Follows (.call number) (fun _ later => later.free)
      (proxy.handle crates method headers url) .idle := by
    intro method headers url
    unfold Proxy.handle
    refine still_act rfl idle_free fun collected => ?_
    cases collected with
    | error err => exact idle_free
    | ok body =>
      dsimp only
      split
      · exact forwards ((forward_passes _ _ _ _ _).mono fun _ passes => passes.1)
      · refine Stages.follows_bind (still_follows ((lookup_retrieving crates proxy _).mono
          fun _ retrieving => retrieving.still) idle_free.alive) fun found later same => ?_
        subst same
        cases found with
        | some entry => exact still_act rfl idle_free fun _ => idle_free
        | none => exact fetches _ _ _ _
  unfold Proxy.dispatch
  split
  · exact forwards ((connect_passes _).mono fun _ passes => passes.1)
  · split
    · unfold Proxy.control
      split
      · exact idle_free
      · split
        · exact still_act rfl idle_free fun _ => idle_free
        · split
          · exact still_act rfl idle_free fun _ => idle_free
          · exact idle_free
    · unfold Proxy.proxied
      split
      · exact idle_free
      · refine Stages.follows_bind (handles _ _ _) fun result later free => ?_
        cases result with
        | ok response => exact free
        | error message => exact still_act rfl free fun _ => free

/-- Every call follows the stages. -/
theorem call_free {crates : Crates} {proxy : Proxy} {number : Nat} {arrival : Arrival}
    {program : Task Value} (called : Job.call crates proxy arrival = some program) :
    anyStages.Follows (.call number) (fun _ later => later.free) program .idle := by
  have stills : ∀ {Result : Type} {program : Task Result} (wrap : Result → Value),
      program.Within (fun action => moves action = false) →
      anyStages.Follows (.call number) (fun _ later => later.free) (yields program wrap) .idle :=
    fun wrap within => Stages.follows_bind (still_follows within idle_free.alive)
      fun _ _ same => same ▸ idle_free
  cases arrival with
  | load_index =>
    cases called
    exact stills _ (load_index_within crates proxy.store
      (fun _ asking => asking.retrieving.still) fun _ => rfl)
  | load_pack =>
    cases called
    exact stills _ ((load_pack_retrieving crates _).mono fun _ retrieving => retrieving.still)
  | get key =>
    cases called
    exact stills _ ((get_retrieving crates _ key).mono fun _ retrieving => retrieving.still)
  | put key bytes =>
    cases called
    exact Stages.follows_bind (put_free _ number key bytes) fun _ _ free => free
  | flush =>
    cases called
    exact Stages.follows_bind (flush_free crates _ number) fun _ _ free => free
  | request request tunnel_authority =>
    cases called
    exact Stages.follows_bind (dispatch_free crates proxy number request tunnel_authority)
      fun _ _ free => free
  | tunnel => cases called
  | upload => cases called

end Programs

/-! ### What belongs to whom -/

/-- The actions that a task can perform as far as it is the right one. -/
def Suits : TaskId → Act → Prop
  | .call _, action => action ≠ .drop_permit
  | .tunnel _, action => Forwarding action ∧ ∀ host port, action ≠ .spawn_tunnel host port
  | .uploader, action => Draining action
  | .upload _, action => action ≠ .join_uploader ∧ ∀ host port, action ≠ .spawn_tunnel host port

/-- The program waits for the upload loop only behind taking the sender away. -/
def Closes {Result : Type} : Task Result → Prop
  | .finish _ => True
  | .perform action next =>
      action = .take_sender ∨ action ≠ .join_uploader ∧ ∀ answer, Closes (next answer)

theorem closes_of_within {Result : Type} {program : Task Result}
    (within : program.Within fun action => action ≠ .join_uploader) : Closes program := by
  induction program with
  | finish result => exact trivial
  | perform action next inductionHypothesis =>
    exact Or.inr ⟨within.1, fun answer => inductionHypothesis answer (within.2 answer)⟩

theorem Requesting.apart {action : Act} (requesting : Requesting action) :
    action ≠ .drop_permit ∧ action ≠ .join_uploader := by
  constructor
  · rintro rfl
    rcases requesting with forwarding | retrieving | queueing | ⟨_, _, _, _, ⟨⟩⟩
    · exact forwarding
    · exact retrieving
    · exact queueing
  · rintro rfl
    rcases requesting with forwarding | retrieving | queueing | ⟨_, _, _, _, ⟨⟩⟩
    · exact forwarding
    · exact retrieving
    · exact queueing

/-- A call gives no permit back, and closes the queue before it waits for the loop. -/
theorem call_suits {crates : Crates} {proxy : Proxy} (number : Nat) {arrival : Arrival}
    {program : Task Value} (called : Job.call crates proxy arrival = some program) :
    program.Within (Suits (.call number)) ∧ Closes program := by
  by_cases loads : arrival = .load_index
  · subst loads
    cases called
    have within : (yields (proxy.store.load_index crates) fun _ => Value.done).Within
        fun action => action ≠ .drop_permit ∧ action ≠ .join_uploader :=
      yields_within (load_index_within crates proxy.store
        (fun _ asking => Requesting.apart asking.retrieving.requesting)
        fun _ => ⟨by rintro ⟨⟩, by rintro ⟨⟩⟩) _
    exact ⟨within.mono fun _ apart => apart.1,
      closes_of_within (within.mono fun _ apart => apart.2)⟩
  · by_cases flushes : arrival = .flush
    · subst flushes
      cases called
      refine ⟨yields_within ((flush_filing crates _).mono fun action filing => ?_) _, Or.inl rfl⟩
      rintro rfl
      exact filing
    · have within := call_requesting called loads flushes
      exact ⟨within.mono fun _ requesting => (Requesting.apart requesting).1,
        closes_of_within (within.mono fun _ requesting => (Requesting.apart requesting).2)⟩

theorem serve_tunnel_suits (proxy : Proxy) (host : String) (port : UInt16) (number : Nat) :
    (proxy.serve_tunnel host port).Within (Suits (.tunnel number)) := by
  unfold Proxy.serve_tunnel
  refine .act ⟨trivial, by rintro _ _ ⟨⟩⟩ fun upgraded => ?_
  cases upgraded with
  | error err => exact trivial
  | ok _ =>
    dsimp only
    split
    · refine .act ⟨trivial, by rintro _ _ ⟨⟩⟩ fun accepted => ?_
      cases accepted <;> exact trivial
    · refine .act ⟨trivial, by rintro _ _ ⟨⟩⟩ fun _ => ?_
      refine .act ⟨trivial, by rintro _ _ ⟨⟩⟩ fun connected => ?_
      cases connected with
      | error err => exact trivial
      | ok _ => exact .act ⟨trivial, by rintro _ _ ⟨⟩⟩ fun _ => trivial

theorem upload_suits (crates : Crates) (gha : GhaCache) (key : String) (bytes : Bytes)
    (number : Nat) : (Store.upload crates gha key bytes).Within (Suits (.upload number)) := by
  refine upload_within crates (fun action asking => ?_) ?_ ?_ ?_ ?_ gha key bytes
  · constructor
    · rintro rfl
      exact asking
    · rintro host port rfl
      exact asking
  · exact fun _ => ⟨by rintro ⟨⟩, by rintro _ _ ⟨⟩⟩
  · exact ⟨by rintro ⟨⟩, by rintro _ _ ⟨⟩⟩
  · exact fun _ _ => ⟨by rintro ⟨⟩, by rintro _ _ ⟨⟩⟩
  · exact ⟨by rintro ⟨⟩, by rintro _ _ ⟨⟩⟩

/-- Arrivals that would allow the action at its stage. -/
def allowing (id : TaskId) : Act → List (Event TaskId Choice Arrival)
  | .send item => [.arrive id (.put item.1 item.2)]
  | _ => [.arrive id .flush]

/-- What a task may do at its stage keeps the stages and the shared state together. -/
theorem Delivering.admitted {limit : Nat} {stage : TaskId → Stage} {before after : World}
    {id : TaskId} {action : Act} {choice : Choice} {answer : Answer action}
    (delivering : Delivering limit stage before)
    (begun : ∀ number, id = .upload number → number < before.uploads)
    (admitted : (stage id).admits id action)
    (result : World.exec id action choice before = some (answer, after)) :
    Delivering limit (Function.update stage id ((stage id).next action answer)) after := by
  cases moving : moves action with
  | false =>
    obtain ⟨owned, drained, awaited⟩ := delivering
    have aside := exec_aside moving result
    rw [next_of_still moving, Function.update_eq_self]
    refine ⟨owned.aside aside, ?_, ?_⟩
    · obtain ⟨sets, flags, files, tunnels, stats, built, service, queued, rfl⟩ := aside
      exact { drained with }
    · obtain ⟨sets, flags, files, tunnels, stats, built, service, queued, rfl⟩ := aside
      exact { awaited with }
  | true =>
    have allowed : Stage.allows (allowing id action) id (stage id) action := by
      cases action with
      | insert set key =>
        cases set with
        | queued => exact admitted
        | _ => cases moving
      | send item =>
        obtain ⟨holding, number, rfl⟩ := admitted
        exact ⟨holding, number, rfl, List.mem_singleton_self _⟩
      | take_sender => exact ⟨admitted, List.mem_singleton_self _⟩
      | take_uploader => exact ⟨admitted, List.mem_singleton_self _⟩
      | _ => first | exact admitted | cases moving
    exact delivering.step begun allowed result

/-! ### Every run -/

/-- How the tasks of a job belong to what they share. -/
structure Tended (proxy : Proxy) (stage : TaskId → Stage)
    (config : Config Act Answer TaskId World Value) : Prop where
  delivering : Delivering (max proxy.store.config.concurrency 1) stage config.shared
  begun : ∀ number, (config.tasks (.upload number)).isSome = true → number < config.shared.uploads
  joined : stage .uploader = .joined → config.shared.uploader_done = true
  suits : ∀ id program, config.tasks id = some program → program.Within (Suits id)
  closes : ∀ number program, config.tasks (.call number) = some program →
    config.shared.sender = false ∨ Closes program
  opened : ∀ entry ∈ config.shared.tunnels, (config.tasks (.call entry.1)).isSome = true
  connected : ∀ number, (config.tasks (.tunnel number)).isSome = true →
    (config.tasks (.call number)).isSome = true
  loop : (config.tasks .uploader).isSome = true

section Run

variable {crates : Crates} {proxy : Proxy} {gha : GhaCache}
variable {config : Config Act Answer TaskId World Value}
variable {stage : TaskId → Stage}

/-- Where the upload loop has ended, everybody can see it. -/
theorem exec_joined {id : TaskId} {action : Act} {choice : Choice} {before after : World}
    {answer : Answer action} (suits : Suits id action)
    (seen : stage .uploader = .joined → before.uploader_done = true)
    (result : World.exec id action choice before = some (answer, after))
    (joined : Function.update stage id ((stage id).next action answer) .uploader = .joined) :
    after.uploader_done = true := by
  have kept : before.uploader_done = true → after.uploader_done = true := by
    intro done
    cases action <;> simp only [World.exec] at result <;> (repeat' split at result) <;>
      cases result <;> first | exact done | rfl
  by_cases same : id = .uploader
  · subst same
    rw [Function.update_self] at joined
    cases action with
    | join_uploads =>
      simp only [World.exec] at result
      split at result
      · cases result
        rfl
      · cases result
    | recv => cases answer <;> cases joined
    | acquire =>
      refine kept (seen ?_)
      cases held : (stage .uploader).held.head? with
      | none =>
        rw [Stage.next, held] at joined
        exact joined
      | some item =>
        rw [Stage.next, held] at joined
        cases joined
    | spawn item => cases joined
    | _ => exact suits.elim
  · rw [Function.update_of_ne (Ne.symm same)] at joined
    exact kept (seen joined)

/-- The tasks after one of them has moved. -/
theorem isSome_update {tasks : TaskId → Option (Task Value)} {id other : TaskId}
    (program : Task Value) (there : (tasks other).isSome = true) :
    (Function.update tasks id (some program) other).isSome = true := by
  by_cases same : other = id
  · rw [same, Function.update_self]
    rfl
  · rwa [Function.update_of_ne same]

theorem of_isSome_update {tasks : TaskId → Option (Task Value)} {id other : TaskId}
    {program : Task Value} (there : (Function.update tasks id (some program) other).isSome = true) :
    other = id ∨ (tasks other).isSome = true := by
  by_cases same : other = id
  · exact Or.inl same
  · rw [Function.update_of_ne same] at there
    exact Or.inr there

theorem held_update (holds : TaskId → Task Value → Prop) {tasks : TaskId → Option (Task Value)}
    {id other : TaskId} {program found : Task Value} (moved : holds id program)
    (others : ∀ program, tasks other = some program → holds other program)
    (there : Function.update tasks id (some program) other = some found) : holds other found := by
  by_cases same : other = id
  · subst same
    rw [Function.update_self, Option.some_inj] at there
    exact there ▸ moved
  · rw [Function.update_of_ne same] at there
    exact others found there

/-- An action keeps what belongs together. -/
theorem Tended.acted (tended : Tended proxy stage config) {id : TaskId} {action : Act}
    {choice : Choice} {next : Answer action → Task Value} {answer : Answer action} {shared : World}
    (task : config.tasks id = some (.perform action next)) (admitted : (stage id).admits id action)
    (result : World.exec id action choice config.shared = some (answer, shared)) :
    Tended proxy (Function.update stage id ((stage id).next action answer))
      ⟨shared, Function.update config.tasks id (some (next answer))⟩ := by
  have within := tended.suits id _ task
  have early : ∀ number, id = .upload number → number < config.shared.uploads := by
    rintro number rfl
    exact tended.begun number (by rw [task]; rfl)
  refine ⟨tended.delivering.admitted early admitted result, ?_,
    exec_joined within.1 tended.joined result, fun other program found => ?_,
    fun other program found => ?_, fun entry member => ?_, fun other there => ?_,
    isSome_update _ tended.loop⟩
  · exact begun_update
      (fun other there => (tended.begun other there).trans_le (exec_uploads result))
      id _ fun other same => (early other same).trans_le (exec_uploads result)
  · exact held_update (fun id program => program.Within (Suits id)) (within.2 answer)
      (tended.suits other) found
  · by_cases gone : shared.sender = false
    · exact Or.inl gone
    · refine Or.inr (held_update (fun id program => ∀ number, id = .call number → Closes program)
        ?_ (fun program found => ?_) found other rfl)
      · rintro number rfl
        rcases exec_sender result with same | rfl
        · have closes := (tended.closes number _ task).resolve_left (same ▸ gone)
          rcases closes with rfl | later
          · cases result
            exact absurd rfl gone
          · exact later.2 answer
        · cases result
          exact absurd rfl gone
      · rintro number ⟨⟩
        refine (tended.closes other program found).resolve_left fun was => gone ?_
        rcases exec_sender result with same | rfl
        · exact same.trans was
        · cases result
          rfl
  · rcases exec_tunnels result with same | ⟨caller, host, port, rfl, -, same⟩
    · rw [same] at member
      exact isSome_update _ (tended.opened entry member)
    · rw [same] at member
      rcases List.mem_append.mp member with before | now
      · exact isSome_update _ (tended.opened entry before)
      · obtain rfl := List.mem_singleton.mp now
        exact isSome_update _ (by rw [task]; rfl)
  · refine isSome_update _ (tended.connected other ?_)
    rcases of_isSome_update there with rfl | before
    · rw [task]
      rfl
    · exact before

/-- So does a task that starts, or goes round. -/
theorem Tended.started (tended : Tended proxy stage config) {id : TaskId} {program : Task Value}
    (suits : program.Within (Suits id)) (closes : ∀ number, id = .call number → Closes program)
    (early : ∀ number, id = .upload number → number < config.shared.uploads)
    (dialled : ∀ number, id = .tunnel number → (config.tasks (.call number)).isSome = true) :
    Tended proxy stage ⟨config.shared, Function.update config.tasks id (some program)⟩ := by
  refine ⟨tended.delivering, begun_update tended.begun id program early, tended.joined,
    fun other task found => ?_, fun other task found => ?_,
    fun entry member => isSome_update _ (tended.opened entry member), fun other there => ?_,
    isSome_update _ tended.loop⟩
  · exact held_update (fun id program => program.Within (Suits id)) suits (tended.suits other) found
  · by_cases gone : config.shared.sender = false
    · exact Or.inl gone
    · refine Or.inr (held_update (fun id program => ∀ number, id = .call number → Closes program)
        closes (fun program there => ?_) found other rfl)
      rintro number ⟨⟩
      exact (tended.closes other program there).resolve_left gone
  · refine isSome_update _ ?_
    rcases of_isSome_update there with same | before
    · exact dialled other same.symm
    · exact tended.connected other before

/-- In every run the tasks follow the stages, and belong to what they share. -/
theorem tended (client : proxy.store.gha = some gha) {world : World} (begun : Begun proxy world)
    (opened : world.tunnels = []) {events : List (Event TaskId Choice Arrival)}
    (ran : (Job.machine crates proxy).run (Job.idle proxy world) events = some config) :
    ∃ stage, Staged anyStages Stage.finishes stage config ∧ Tended proxy stage config := by
  have rounds : anyStages.Follows .uploader (Stage.finishes .uploader)
      (yields proxy.store.upload_round .round) .idle := by
    have follows := @upload_round_follows [] _ _ client
    refine Stages.follows_bind (any_of_stages follows) fun again later ended => ?_
    rcases ended with ⟨rfl, rfl⟩ | ⟨rfl, rfl⟩
    · exact Or.inl ⟨rfl, rfl⟩
    · exact Or.inr ⟨rfl, rfl⟩
  have staged : Staged anyStages Stage.finishes (fun _ => .idle) (Job.idle proxy world) := by
    refine ⟨fun id program task => ?_, fun _ _ => rfl⟩
    cases id with
    | uploader =>
      cases task
      exact rounds
    | _ => cases task
  have kept := Staged.run (Tended proxy) ?_ ?_ ?_ ran staged ?_
  · exact ⟨_, kept.1, kept.2.1⟩
  · intro stage config id choice action next answer shared tended task admitted result
    exact tended.acted task admitted result
  · intro stage config id value program tended ended goesOn
    cases id with
    | uploader =>
      cases value with
      | round more =>
        cases more with
        | true =>
          cases goesOn
          rcases ended with ⟨-, idle⟩ | ⟨⟨⟩, _⟩
          refine ⟨idle ▸ rounds, tended.started ?_ (by rintro _ ⟨⟩) (by rintro _ ⟨⟩)
            (by rintro _ ⟨⟩)⟩
          exact yields_within (upload_round_draining proxy.store) _
        | false => cases goesOn
      | _ => cases goesOn
    | _ => cases goesOn
  · intro stage config id arrival program shared tended member free result
    rcases Job.accept_cases crates proxy result with ⟨number, rfl, called, rfl⟩ |
      ⟨number, host, port, rfl, opened, rfl, rfl⟩ | ⟨number, key, bytes, gha, rfl, waiting,
        -, rfl, rfl⟩
    · have suits := call_suits number called
      exact ⟨call_free called, tended.started suits.1 (fun _ _ => suits.2) (by rintro _ ⟨⟩)
        (by rintro _ ⟨⟩)⟩
    · have suits := serve_tunnel_suits proxy host port number
      refine ⟨?_, tended.started (yields_within suits _) (by rintro _ ⟨⟩) (by rintro _ ⟨⟩) ?_⟩
      · exact Stages.follows_bind (still_follows (suits.mono fun _ both => both.1.still)
          idle_free.alive) fun _ _ same => same ▸ idle_free
      · rintro _ ⟨⟩
        exact tended.opened _ (lookup_mem opened)
    · have follows := @upload_follows [] crates gha number key bytes
      refine ⟨Stages.follows_bind (any_of_stages follows) fun _ _ ended => ended,
        tended.started (yields_within (upload_suits crates gha key bytes number) _)
          (by rintro _ ⟨⟩) ?_ (by rintro _ ⟨⟩)⟩
      rintro _ ⟨⟩
      have listed := List.mem_map_of_mem (f := Prod.fst) (lookup_mem waiting)
      rwa [tended.delivering.drained.numbers, List.mem_range] at listed
  · refine ⟨begun_delivering begun, fun _ => by rintro ⟨⟩, by rintro ⟨⟩, fun id program task => ?_,
      fun _ _ => by rintro ⟨⟩, fun entry member => ?_, fun _ => by rintro ⟨⟩, rfl⟩
    · cases id with
      | uploader =>
        cases task
        exact yields_within (upload_round_draining proxy.store) _
      | _ => cases task
    · rw [Job.idle, opened] at member
      cases member

end Run

/-! ### Every step is one towards the end -/

/-- Everything but a further call. -/
def Onward (event : Event TaskId Choice Arrival) : Prop :=
  ∀ number arrival, event ≠ .arrive (.call number) arrival

/-- The calls that were made and the connections they can open. -/
def entered (made : Finset Nat) : Finset TaskId := made.image .call ∪ made.image .tunnel

/-- How far the upload loop is from the end of its round. -/
def remaining : Option (Task Value) → Nat
  | some (.perform .acquire _) => 5
  | some (.perform (.spawn _) _) => 4
  | some (.finish (.round true)) => 3
  | some (.perform .recv _) => 2
  | some (.perform .join_uploads _) => 1
  | _ => 0

/-- What counts first: the calls and the connections, then the queue, then the round of the loop. -/
def ahead (made : Finset Nat) (config : Config Act Answer TaskId World Value) :
    (entered made → Option (Task Value)) × Nat × Nat :=
  (fun id => config.tasks id.1, config.shared.queue.length, remaining (config.tasks .uploader))

/-- What counts last: the uploads that were spawned. -/
def Uploading (count : Nat) (after before : Config Act Answer TaskId World Value) : Prop :=
  Advances (fun number : Fin count => after.tasks (.upload number))
    fun number : Fin count => before.tasks (.upload number)

/-- A step towards the end. -/
def Towards (made : Finset Nat) (after before : Config Act Answer TaskId World Value) : Prop :=
  Prod.Lex (Prod.Lex Advances (Prod.Lex (· < ·) (· < ·)))
    (fun after before => after.shared.uploads = before.shared.uploads ∧
      Uploading before.shared.uploads after before) (ahead made after, after) (ahead made before,
        before)

theorem towards_wellFounded (made : Finset Nat) : WellFounded (Towards made) := by
  have uploads : ∀ count, WellFounded (Uploading count) := fun count =>
    InvImage.wf (fun (config : Config Act Answer TaskId World Value) (number : Fin count) =>
      config.tasks (.upload number)) advances_wellFounded
  exact InvImage.wf (fun config => (ahead made config, config))
    (WellFounded.prod_lex
      (advances_wellFounded.prod_lex (wellFounded_lt.prod_lex wellFounded_lt))
      (fibre_wellFounded uploads))

theorem mem_entered {made : Finset Nat} {id : TaskId} : id ∈ entered made ↔
    (∃ number ∈ made, TaskId.call number = id) ∨ ∃ number ∈ made, TaskId.tunnel number = id := by
  rw [entered, Finset.mem_union, Finset.mem_image, Finset.mem_image]

section Steps

variable {made : Finset Nat} {before : Config Act Answer TaskId World Value}
variable {id : TaskId} {program : Task Value} {shared : World}

/-- A call or a connection that moves. -/
theorem towards_entered (member : id ∈ entered made)
    (nearer : Nearer (some program) (before.tasks id)) :
    Towards made ⟨shared, Function.update before.tasks id (some program)⟩ before :=
  Prod.Lex.left _ _ (Prod.Lex.left _ _
    (Advances.update Subtype.val_injective (⟨id, member⟩ : entered made) nearer))

/-- A task that is neither a call nor a connection leaves these alone. -/
theorem entered_update (other : ∀ number, TaskId.call number ≠ id ∧ TaskId.tunnel number ≠ id) :
    (fun part : entered made => Function.update before.tasks id (some program) part.1) =
      fun part => before.tasks part.1 := by
  funext part
  refine Function.update_of_ne ?_ ..
  rcases mem_entered.mp part.2 with ⟨number, -, same⟩ | ⟨number, -, same⟩
  · exact same ▸ (other number).1
  · exact same ▸ (other number).2

/-- The upload loop that moves. -/
theorem towards_loop
    (lower : Prod.Lex (· < ·) (· < ·) (shared.queue.length, remaining (some program))
      (before.shared.queue.length, remaining (before.tasks .uploader))) :
    Towards made ⟨shared, Function.update before.tasks .uploader (some program)⟩ before := by
  refine Prod.Lex.left _ _ ?_
  simp only [ahead]
  rw [entered_update fun _ => ⟨by rintro ⟨⟩, by rintro ⟨⟩⟩, Function.update_self]
  exact Prod.Lex.right _ lower

/-- An upload that moves. -/
theorem towards_upload {number : Nat} (begun : number < before.shared.uploads)
    (queue : shared.queue = before.shared.queue) (uploads : shared.uploads = before.shared.uploads)
    (nearer : Nearer (some program) (before.tasks (.upload number))) :
    Towards made ⟨shared, Function.update before.tasks (.upload number) (some program)⟩ before := by
  have distinct :
      Function.Injective fun part : Fin before.shared.uploads => TaskId.upload part := by
    intro first second same
    exact Fin.ext (TaskId.upload.inj same)
  have same : ahead made ⟨shared, Function.update before.tasks (.upload number) (some program)⟩ =
      ahead made before := by
    have other : TaskId.uploader ≠ .upload number := by rintro ⟨⟩
    simp only [ahead]
    rw [entered_update fun _ => ⟨by rintro ⟨⟩, by rintro ⟨⟩⟩, queue, Function.update_of_ne other]
  rw [Towards, same]
  exact Prod.Lex.right _ ⟨uploads, Advances.update distinct ⟨number, begun⟩ nearer⟩

/-- How far the loop can be from the end of its round at a stage. -/
def Stage.most : Stage → Nat
  | .taken _ => 5
  | .permitted _ => 4
  | .idle => 3
  | .closed => 1
  | _ => 0

theorem remaining_le {stage : Stage} {program : Task Value}
    (follows : anyStages.Follows .uploader (Stage.finishes .uploader) program stage)
    (suits : program.Within (Suits .uploader)) : remaining (some program) ≤ stage.most := by
  cases program with
  | finish value =>
    rcases follows with ⟨rfl, rfl⟩ | ⟨rfl, rfl⟩
    · exact le_rfl
    · exact Nat.zero_le _
  | perform action next =>
    have draining : Draining action := suits.1
    cases action with
    | recv =>
      obtain ⟨-, rfl⟩ := follows.1
      exact Nat.le_succ 2
    | acquire =>
      obtain ⟨-, item, rfl⟩ := follows.1
      exact le_rfl
    | spawn item =>
      obtain ⟨-, rfl⟩ := follows.1
      exact le_rfl
    | join_uploads =>
      obtain ⟨-, rfl⟩ := follows.1
      exact le_rfl
    | _ => exact draining.elim

/-- What an upload does leaves the queue and the number of uploads as they are. -/
theorem exec_upload {number : Nat} {stage : Stage} {action : Act} {choice : Choice}
    {before after : World} {answer : Answer action}
    (admitted : stage.admits (.upload number) action)
    (result : World.exec (.upload number) action choice before = some (answer, after)) :
    after.queue = before.queue ∧ after.uploads = before.uploads := by
  cases action with
  | send item =>
    obtain ⟨-, caller, same⟩ := admitted
    cases same
  | recv => cases admitted.1
  | spawn item => cases admitted.1
  | _ =>
    simp only [World.exec] at result
    (repeat' split at result) <;> cases result <;> exact ⟨rfl, rfl⟩

/-- What the upload loop does is a step towards the end. -/
theorem towards_acted {stage : Stage} {action : Act} {choice : Choice}
    {next : Answer action → Task Value} {answer : Answer action}
    (task : before.tasks .uploader = some (.perform action next))
    (follows : anyStages.Follows .uploader (Stage.finishes .uploader) (.perform action next) stage)
    (suits : (Program.perform action next : Task Value).Within (Suits .uploader))
    (result : World.exec .uploader action choice before.shared = some (answer, shared)) :
    Towards made ⟨shared, Function.update before.tasks .uploader (some (next answer))⟩ before := by
  have bound := remaining_le (follows.2 answer) (suits.2 answer)
  have draining : Draining action := suits.1
  refine towards_loop ?_
  rw [task]
  cases action with
  | recv =>
    obtain ⟨-, rfl⟩ := follows.1
    simp only [World.exec] at result
    split at result
    · rename_i item rest waiting
      cases result
      refine Prod.Lex.left _ _ ?_
      rw [waiting, List.length_cons]
      exact Nat.lt_succ_self _
    · split at result
      · cases result
        exact Prod.Lex.right _ (Nat.lt_succ_of_le bound)
      · cases result
  | acquire =>
    obtain ⟨-, item, rfl⟩ := follows.1
    simp only [World.exec] at result
    split at result
    · cases result
      exact Prod.Lex.right _ (Nat.lt_succ_of_le bound)
    · cases result
  | spawn item =>
    obtain ⟨-, rfl⟩ := follows.1
    cases result
    exact Prod.Lex.right _ (Nat.lt_succ_of_le bound)
  | join_uploads =>
    obtain ⟨-, rfl⟩ := follows.1
    simp only [World.exec] at result
    split at result
    · cases result
      exact Prod.Lex.right _ (Nat.lt_succ_of_le bound)
    · cases result
  | _ => exact draining.elim

/-- Every step but a further call is one towards the end. -/
theorem Tended.towards {crates : Crates} {proxy : Proxy} {stage : TaskId → Stage}
    (staged : Staged anyStages Stage.finishes stage before) (tended : Tended proxy stage before)
    (calls : ∀ number, (before.tasks (.call number)).isSome = true → number ∈ made)
    {event : Event TaskId Choice Arrival} (onward : Onward event)
    {after : Config Act Answer TaskId World Value}
    (stepped : (Job.machine crates proxy).Stepped before event after) :
    Towards made after before := by
  cases stepped with
  | @acted id choice action next answer shared task result =>
    have nearer : Nearer (some (next answer)) (before.tasks id) := task ▸ .acted answer
    cases id with
    | call number =>
      exact towards_entered
        (mem_entered.mpr (Or.inl ⟨number, calls number (by rw [task]; rfl), rfl⟩))
        nearer
    | tunnel number =>
      have dialled := calls number (tended.connected number (by rw [task]; rfl))
      exact towards_entered (mem_entered.mpr (Or.inr ⟨number, dialled, rfl⟩)) nearer
    | uploader =>
      exact towards_acted task (staged.tasks _ _ task) (tended.suits _ _ task) result
    | upload number =>
      obtain ⟨queue, uploads⟩ := exec_upload (staged.tasks _ _ task).1 result
      exact towards_upload (tended.begun number (by rw [task]; rfl)) queue uploads nearer
  | @looped id choice value program task result =>
    cases id with
    | uploader =>
      cases value with
      | round more =>
        cases more with
        | true =>
          cases result
          refine towards_loop ?_
          rw [task]
          exact Prod.Lex.right _ (Nat.lt_succ_self 2)
        | false => cases result
      | _ => cases result
    | _ => cases result
  | @arrived id arrival program shared free result =>
    have nearer : Nearer (some program) (before.tasks id) := free ▸ .arrived program
    rcases Job.accept_cases crates proxy result with ⟨number, rfl, called, rfl⟩ |
      ⟨number, host, port, rfl, opened, rfl, rfl⟩ | ⟨number, key, bytes, gha, rfl, waiting,
        -, rfl, rfl⟩
    · exact absurd rfl (onward number arrival)
    · have dialled := calls number (tended.opened _ (lookup_mem opened))
      exact towards_entered (mem_entered.mpr (Or.inr ⟨number, dialled, rfl⟩)) nearer
    · have listed := List.mem_map_of_mem (f := Prod.fst) (lookup_mem waiting)
      rw [tended.delivering.drained.numbers, List.mem_range] at listed
      exact towards_upload listed rfl rfl nearer

end Steps

/-! ### Nobody waits for good -/

/-- No step but a further call is possible. -/
def Stuck (crates : Crates) (proxy : Proxy) (config : Config Act Answer TaskId World Value) :
    Prop :=
  ∀ event after, Onward event → (Job.machine crates proxy).step config event ≠ some after

/-- What holds when the job has come to rest: nothing moves before there is a further call, and
nothing is left to do. -/
structure AtRest (crates : Crates) (proxy : Proxy)
    (config : Config Act Answer TaskId World Value) : Prop where
  stuck : Stuck crates proxy config
  returned : ∀ number program, config.tasks (.call number) = some program →
    ∃ value, program = .finish value
  connections : ∀ entry ∈ config.shared.tunnels,
    ∃ value, config.tasks (.tunnel entry.1) = some (.finish value)
  uploads : ∀ entry ∈ config.shared.spawned,
    ∃ value, config.tasks (.upload entry.1) = some (.finish value)
  running : config.shared.running = []
  permits : config.shared.permits = max proxy.store.config.concurrency 1
  queue : config.shared.queue = []
  loop : config.shared.sender = false → config.shared.uploader_done = true

/-- An action of a task other than the upload loop is possible, whatever the state, unless it waits
for the loop. -/
theorem exec_possible {id : TaskId} {stage : Stage} {action : Act} (world : World)
    (other : id ≠ .uploader) (suits : Suits id action) (admitted : stage.admits id action)
    (ready : action = .join_uploader → world.uploader_done = true) :
    ∃ choice answer after, World.exec id action choice world = some (answer, after) := by
  cases action with
  | insert set key => exact ⟨.quiet, _, _, rfl⟩
  | contains set key => exact ⟨.quiet, _, _, rfl⟩
  | iter set =>
    refine ⟨.listing (world.sets set).toList, _, _, if_pos ⟨?_, ?_⟩⟩
    · exact Finset.nodup_toList _
    · exact Finset.toList_toFinset _
  | load flag => exact ⟨.quiet, _, _, rfl⟩
  | store flag => exact ⟨.quiet, _, _, rfl⟩
  | read path => exact ⟨.contents none, none, world, by simp [World.exec, World.Readable]⟩
  | write_begin path bytes => exact ⟨.opened false, _, _, rfl⟩
  | write_end path bytes => exact ⟨.written none, _, _, rfl⟩
  | clone_sender =>
    by_cases there : world.sender = true
    · exact ⟨.quiet, _, _, if_pos there⟩
    · exact ⟨.quiet, _, _, if_neg there⟩
  | send item => exact ⟨.quiet, _, _, rfl⟩
  | take_sender => exact ⟨.quiet, _, _, rfl⟩
  | recv => exact absurd admitted.1 other
  | take_uploader => exact ⟨.quiet, _, _, rfl⟩
  | join_uploader => exact ⟨.quiet, _, _, if_pos (ready rfl)⟩
  | acquire => exact absurd admitted.1 other
  | spawn item => exact absurd admitted.1 other
  | drop_permit =>
    cases id with
    | call number => exact absurd rfl suits
    | tunnel number => exact suits.1.elim
    | uploader => exact absurd rfl other
    | upload number => exact ⟨.quiet, _, _, rfl⟩
  | join_uploads => exact absurd admitted.1 other
  | post url token request => exact ⟨.replied none .nothing, _, _, rfl⟩
  | put_blob url data => exact ⟨.uploaded none false, _, _, rfl⟩
  | get_blob url => exact ⟨.downloaded none, none, world, by simp [World.exec]⟩
  | now => exact ⟨.clock 0, _, _, rfl⟩
  | elapsed => exact ⟨.clock 0, _, _, rfl⟩
  | build_entry url status headers body => exact ⟨.clock 0, _, _, rfl⟩
  | record outcome method url bytes millis => exact ⟨.quiet, _, _, rfl⟩
  | record_upload bytes ok => exact ⟨.quiet, _, _, rfl⟩
  | record_packed objects bytes => exact ⟨.quiet, _, _, rfl⟩
  | summary => exact ⟨.quiet, _, _, rfl⟩
  | collect => exact ⟨.collected (.error ""), _, _, rfl⟩
  | send_request client method url headers body => exact ⟨.upstream (.error ""), _, _, rfl⟩
  | spawn_tunnel host port =>
    cases id with
    | call number => exact ⟨.quiet, _, _, rfl⟩
    | tunnel number => exact absurd rfl (suits.2 host port)
    | uploader => exact absurd rfl other
    | upload number => exact absurd rfl (suits.2 host port)
  | upgrade => exact ⟨.connection (.error ""), _, _, rfl⟩
  | accept_tls host => exact ⟨.connection (.error ""), _, _, rfl⟩
  | connect host port => exact ⟨.connection (.error ""), _, _, rfl⟩
  | copy_bidirectional => exact ⟨.connection (.error ""), _, _, rfl⟩

section Rest

variable {crates : Crates} {proxy : Proxy} {gha : GhaCache} {stage : TaskId → Stage}
variable {config : Config Act Answer TaskId World Value}

/-- Where nothing is possible, a task is finished unless it waits for the upload loop. -/
theorem Stuck.finished (stuck : Stuck crates proxy config)
    (staged : Staged anyStages Stage.finishes stage config) (tended : Tended proxy stage config)
    {id : TaskId} (other : id ≠ .uploader) {program : Task Value}
    (task : config.tasks id = some program)
    (ready : ∀ next, program = .perform .join_uploader next → config.shared.uploader_done = true) :
    ∃ value, program = .finish value ∧ Stage.finishes id value (stage id) := by
  have follows := staged.tasks id program task
  have suits := tended.suits id program task
  cases program with
  | finish value => exact ⟨value, rfl, follows⟩
  | perform action next =>
    obtain ⟨choice, answer, after, result⟩ :=
      exec_possible config.shared other suits.1 follows.1 (by
      rintro rfl
      exact ready next rfl)
    refine absurd ((Machine.step_eq_some_iff ..).mpr (.acted task result)) (stuck _ _ ?_)
    rintro _ _ ⟨⟩

theorem exists_lookup {Named : Type} {items : List (Nat × Named)} {number : Nat}
    (member : number ∈ items.map Prod.fst) : ∃ named, items.lookup number = some named := by
  obtain ⟨item, there, rfl⟩ := List.mem_map.mp member
  exact Option.isSome_iff_exists.mp (List.lookup_isSome_iff.mpr ⟨item, there, beq_self_eq_true _⟩)

/-- What was spawned and has not arrived can arrive. -/
theorem Stuck.arrived (stuck : Stuck crates proxy config) {id : TaskId} {arrival : Arrival}
    (other : ∀ number, id ≠ .call number) {program : Task Value}
    (accepted : Job.accept crates proxy id arrival config.shared = some (program, config.shared)) :
    ∃ there, config.tasks id = some there := by
  cases task : config.tasks id with
  | some there => exact ⟨there, rfl⟩
  | none =>
    refine absurd ((Machine.step_eq_some_iff ..).mpr (.arrived task accepted)) (stuck _ _ ?_)
    rintro number _ ⟨⟩
    exact other number rfl

/-- The uploads that were spawned have ended. -/
theorem Stuck.uploads (stuck : Stuck crates proxy config) (client : proxy.store.gha = some gha)
    (staged : Staged anyStages Stage.finishes stage config) (tended : Tended proxy stage config)
    {number : Nat} (spawned : number < config.shared.uploads) :
    ∃ value, config.tasks (.upload number) = some (.finish value) ∧
      stage (.upload number) = .dropped := by
  have listed : number ∈ config.shared.spawned.map Prod.fst := by
    rw [tended.delivering.drained.numbers]
    exact List.mem_range.mpr spawned
  obtain ⟨⟨key, bytes⟩, waiting⟩ := exists_lookup listed
  have accepted : Job.accept crates proxy (.upload number) .upload config.shared =
      some (yields (Store.upload crates gha key bytes) fun _ => .done, config.shared) := by
    simp only [Job.accept, waiting, client]
  obtain ⟨program, task⟩ := stuck.arrived (by rintro _ ⟨⟩) accepted
  obtain ⟨value, rfl, ended⟩ := stuck.finished staged tended (by rintro ⟨⟩) task (by
    rintro next rfl
    exact absurd rfl (tended.suits _ _ task).1.1)
  exact ⟨value, task, ended⟩

/-- The connections that were opened have ended. -/
theorem Stuck.connections (stuck : Stuck crates proxy config)
    (staged : Staged anyStages Stage.finishes stage config) (tended : Tended proxy stage config)
    {entry : Nat × String × UInt16} (opened : entry ∈ config.shared.tunnels) :
    ∃ value, config.tasks (.tunnel entry.1) = some (.finish value) := by
  obtain ⟨⟨host, port⟩, waiting⟩ := exists_lookup (List.mem_map_of_mem (f := Prod.fst) opened)
  have accepted : Job.accept crates proxy (.tunnel entry.1) .tunnel config.shared =
      some (yields (proxy.serve_tunnel host port) .tunnelled, config.shared) := by
    simp only [Job.accept, waiting, Option.map_some]
  obtain ⟨program, task⟩ := stuck.arrived (by rintro _ ⟨⟩) accepted
  obtain ⟨value, rfl, -⟩ := stuck.finished staged tended (by rintro ⟨⟩) task (by
    rintro next rfl
    exact (tended.suits _ _ task).1.1.elim)
  exact ⟨value, task⟩

/-- A task that holds a clone of the sender can send. -/
theorem Stuck.clones (stuck : Stuck crates proxy config)
    (staged : Staged anyStages Stage.finishes stage config) (tended : Tended proxy stage config) :
    config.shared.clones = 0 := by
  obtain ⟨holders, card, holds⟩ := tended.delivering.owned.clones
  rw [← card, Finset.card_eq_zero]
  refine Finset.eq_empty_of_forall_notMem fun id member => ?_
  obtain ⟨key, holding⟩ := (holds id).mp member
  cases task : config.tasks id with
  | none =>
    have idle := staged.absent id task
    rw [holding] at idle
    cases idle
  | some program =>
    have follows := staged.tasks id program task
    rw [holding] at follows
    by_cases loop : id = .uploader
    · subst loop
      have bound := tended.suits _ _ task
      cases program with
      | finish value => rcases follows with both | both <;> cases both.2
      | perform action next =>
        have draining : Draining action := bound.1
        cases action with
        | recv => cases follows.1.2
        | acquire =>
          obtain ⟨_, _, taken⟩ := follows.1
          cases taken
        | spawn item => cases follows.1.2
        | join_uploads => cases follows.1.2
        | _ => exact draining
    · obtain ⟨value, rfl, ended⟩ := stuck.finished staged tended loop task (by
        rintro next rfl
        cases follows.1)
      rw [holding] at ended
      cases id with
      | call number => exact ended.empty key rfl
      | tunnel number => exact ended.empty key rfl
      | uploader => exact loop rfl
      | upload number => cases ended

/-- Where nothing is possible, the upload loop waits for an object, or has ended behind the last. -/
theorem Stuck.loop (stuck : Stuck crates proxy config) (client : proxy.store.gha = some gha)
    (staged : Staged anyStages Stage.finishes stage config) (tended : Tended proxy stage config) :
    config.shared.running = [] ∧
      config.shared.permits = max proxy.store.config.concurrency 1 ∧ config.shared.queue = [] ∧
      (config.shared.sender = false → config.shared.uploader_done = true) := by
  have drained := tended.delivering.drained
  have idle : config.shared.running = [] := by
    refine List.eq_nil_iff_forall_not_mem.mpr fun number member => ?_
    obtain ⟨begun, goesOn⟩ := (drained.running number).mp member
    exact goesOn (stuck.uploads client staged tended begun).choose_spec.2
  -- Without uploads every permit is either back or in the hands of the loop.
  have back : (stage .uploader).permits = 0 →
      config.shared.permits = max proxy.store.config.concurrency 1 := by
    intro none
    have permits := drained.permits
    rwa [idle, none] at permits
  refine ⟨idle, ?_⟩
  have onward : ∀ choice, Onward (.run .uploader choice) := by rintro _ _ _ ⟨⟩
  obtain ⟨program, task⟩ := Option.isSome_iff_exists.mp tended.loop
  have follows := staged.tasks _ _ task
  cases program with
  | finish value =>
    rcases follows with ⟨rfl, -⟩ | ⟨-, joined⟩
    · exact absurd ((Machine.step_eq_some_iff ..).mpr (.looped task rfl))
        (stuck _ _ (onward .quiet))
    · exact ⟨back (joined ▸ rfl), (drained.closed (Or.inr joined)).2.2,
        fun _ => tended.joined joined⟩
  | perform action next =>
    have draining : Draining action := (tended.suits _ _ task).1
    have able : ∀ choice answer after,
        World.exec .uploader action choice config.shared ≠ some (answer, after) :=
      fun choice answer after result => stuck _ _ (onward choice)
        ((Machine.step_eq_some_iff ..).mpr (.acted task result))
    cases action with
    | recv =>
      cases waiting : config.shared.queue with
      | cons item rest =>
        exact absurd (by simp only [World.exec, waiting])
          (able .quiet (some item) { config.shared with queue := rest })
      | nil =>
        have waits : stage .uploader = .idle := follows.1.2
        refine ⟨back (waits ▸ rfl), rfl, fun gone => absurd ?_ (able .quiet none config.shared)⟩
        simp only [World.exec, waiting]
        exact if_pos ⟨gone, stuck.clones staged tended⟩
    | acquire =>
      obtain ⟨-, item, taken⟩ := follows.1
      have permits := drained.permits
      rw [idle, taken] at permits
      have available : 0 < config.shared.permits := by
        simp only [List.length_nil, Stage.permits] at permits
        omega
      exact absurd (if_pos available) (able .quiet () _)
    | spawn item => exact absurd rfl (able .quiet () _)
    | join_uploads => exact absurd (if_pos idle) (able .quiet () _)
    | _ => exact draining.elim

/-- Where nothing is possible, the job has come to rest. -/
theorem Stuck.atRest (stuck : Stuck crates proxy config) (client : proxy.store.gha = some gha)
    (staged : Staged anyStages Stage.finishes stage config) (tended : Tended proxy stage config) :
    AtRest crates proxy config := by
  obtain ⟨running, permits, queue, loop⟩ := stuck.loop client staged tended
  refine ⟨stuck, fun number program task => ?_,
    fun entry opened => stuck.connections staged tended opened, fun entry spawned => ?_, running,
    permits, queue, loop⟩
  · obtain ⟨value, finished, -⟩ := stuck.finished staged tended (by rintro ⟨⟩) task (by
      rintro next rfl
      refine loop ((tended.closes number _ task).resolve_right ?_)
      rintro (⟨⟨⟩⟩ | ⟨other, -⟩)
      exact other rfl)
    exact ⟨value, finished⟩
  · have listed := List.mem_map_of_mem (f := Prod.fst) spawned
    rw [tended.delivering.drained.numbers, List.mem_range] at listed
    obtain ⟨value, task, -⟩ := stuck.uploads client staged tended listed
    exact ⟨value, task⟩

end Rest

/-! ### The end of a job -/

section End

variable {crates : Crates} {proxy : Proxy} {gha : GhaCache} {world : World}
variable {events : List (Event TaskId Choice Arrival)}
variable {config : Config Act Answer TaskId World Value}

/-- The number of the call that is made. -/
def callOf : Event TaskId Choice Arrival → Option Nat
  | .arrive (.call number) _ => some number
  | _ => none

/-- Only finitely many calls were made. -/
theorem calls_finite
    (ran : (Job.machine crates proxy).run (Job.idle proxy world) events = some config) :
    ∃ made : Finset Nat, ∀ number, (config.tasks (.call number)).isSome = true → number ∈ made := by
  refine ⟨(events.filterMap callOf).toFinset, fun number there => ?_⟩
  have free : (Job.idle proxy world).tasks (.call number) = none := rfl
  rcases Machine.arrived_or ran (fun _ => rfl) free with ⟨absent, -⟩ |
    ⟨front, arrival, back, _, _, _, parts, -⟩
  · rw [absent] at there
    cases there
  · rw [List.mem_toFinset, List.mem_filterMap]
    refine ⟨.arrive (.call number) arrival, ?_, rfl⟩
    rw [parts]
    exact List.mem_append_right _ List.mem_cons_self

/-- Without a further call the calls stay the same. -/
theorem Onward.calls {after : Config Act Answer TaskId World Value}
    {event : Event TaskId Choice Arrival} (onward : Onward event)
    (stepped : (Job.machine crates proxy).Stepped config event after) {number : Nat}
    (there : (after.tasks (.call number)).isSome = true) :
    (config.tasks (.call number)).isSome = true := by
  cases stepped with
  | acted task result =>
    rcases of_isSome_update there with rfl | before
    · rw [task]
      rfl
    · exact before
  | looped task result =>
    rcases of_isSome_update there with rfl | before
    · rw [task]
      rfl
    · exact before
  | arrived free result =>
    rcases of_isSome_update there with rfl | before
    · exact absurd rfl (onward number _)
    · exact before

/-- What a run of a new job comes to whose calls are all among these. -/
structure Onwards (crates : Crates) (proxy : Proxy) (service : Service) (built : List Built)
    (made : Finset Nat) (config : Config Act Answer TaskId World Value) : Prop where
  ran : ∃ events, (Job.machine crates proxy).run
    (Job.idle proxy (Job.fresh proxy service built)) events = some config
  calls : ∀ number, (config.tasks (.call number)).isSome = true → number ∈ made

/-- Without a further call the job goes on so, by a step towards the end. -/
theorem Onwards.step {service : Service} {built : List Built} {made : Finset Nat}
    {before after : Config Act Answer TaskId World Value} {event : Event TaskId Choice Arrival}
    (client : proxy.store.gha = some gha) (holds : Onwards crates proxy service built made before)
    (onward : Onward event) (stepped : (Job.machine crates proxy).Stepped before event after) :
    Onwards crates proxy service built made after ∧ Towards made after before := by
  obtain ⟨⟨past, reached⟩, calls⟩ := holds
  obtain ⟨stage, staged, tended⟩ := tended client (begun_fresh proxy service built) rfl reached
  refine ⟨⟨⟨past ++ [event], ?_⟩, fun number there => calls number (onward.calls stepped there)⟩,
    tended.towards staged calls onward stepped⟩
  rw [Machine.run_append, reached, Option.bind_some]
  simp only [Machine.run, (Machine.step_eq_some_iff ..).mpr stepped, Option.bind_some]

end End

end Delivery

open Delivery

/-- Whatever calls were made to a job with a cache service, in whatever order its tasks have run and
whatever was answered to them: without further calls every step is one towards the end, so that no
run is endless, and the job comes to rest. -/
theorem comes_to_rest (crates : Crates) (proxy : Proxy) (gha : GhaCache)
    (client : proxy.store.gha = some gha) (service : Service) (built : List Built)
    (events : List (Event TaskId Choice Arrival)) (config : Config Act Answer TaskId World Value)
    (ran : (Job.machine crates proxy).run (Job.idle proxy (Job.fresh proxy service built)) events =
      some config) :
    (∃ made, WellFounded (Towards made) ∧ ∀ back before event after,
      (∀ earlier ∈ back, Onward earlier) →
      (Job.machine crates proxy).run config back = some before → Onward event →
      (Job.machine crates proxy).step before event = some after → Towards made after before) ∧
    ¬ (Job.machine crates proxy).Endless Onward config ∧
    (Job.machine crates proxy).Inevitable Onward (AtRest crates proxy) config := by
  obtain ⟨made, calls⟩ := calls_finite ran
  have holds : Onwards crates proxy service built made config := ⟨⟨events, ran⟩, calls⟩
  have descends : ∀ before event after, Onwards crates proxy service built made before →
      Onward event → (Job.machine crates proxy).Stepped before event after →
      Onwards crates proxy service built made after ∧ Towards made after before :=
    fun _ _ _ holds onward stepped => Onwards.step client holds onward stepped
  refine ⟨⟨made, towards_wellFounded made, fun back before event after onward ran moves step => ?_⟩,
    Machine.not_endless_of_descends (towards_wellFounded made) _ descends holds,
    .of_descends (towards_wellFounded made) _ descends ?_ holds⟩
  · have reached : (Job.machine crates proxy).Reaches (fun _ => Onward) config before :=
      .of_run (fun _ => onward) ran
    have here : Onwards crates proxy service built made before := reached.preserves _
      (fun _ _ _ permitted stepped holds => (descends _ _ _ holds permitted stepped).1) holds
    exact (descends before event after here moves ((Machine.step_eq_some_iff ..).mp step)).2
  · rintro now ⟨⟨past, reached⟩, -⟩ busy
    obtain ⟨stage, staged, tended⟩ := tended client (begun_fresh proxy service built) rfl reached
    by_contra none
    have stuck : Stuck crates proxy now := fun event after onward stepped =>
      none ⟨event, after, onward, stepped⟩
    exact busy (stuck.atRest client staged tended)

/-- A `flush` waits for the upload loop, which has not seen the object in the queue yet. -/
def waitingFlush : List (Event TaskId Choice Arrival) :=
  putRuns 0 "t-0" ++ [.arrive (.call 1) .flush, .run (.call 1) .quiet, .run (.call 1) .quiet]

set_option maxRecDepth 4000 in
theorem comes_to_rest_waiting : ∃ config : Config Act Answer TaskId World Value,
    (∃ next, config.tasks (.call 1) = some (.perform .join_uploader next)) ∧
      config.shared.uploader_done = false ∧ config.shared.queue = [("t-0", [0x78])] ∧
      (Job.machine .unknown unpackedProxy).Inevitable Onward (AtRest .unknown unpackedProxy)
        config := by
  have ran : (Job.machine .unknown unpackedProxy).run
    (Job.idle unpackedProxy (Job.fresh unpackedProxy .empty [])) waitingFlush = some _ := rfl
  exact ⟨_, ⟨_, rfl⟩, rfl, rfl,
    (comes_to_rest .unknown unpackedProxy _ rfl .empty [] waitingFlush _ ran).2.2⟩

end Cicache
