/-
This file settles what is left of a job's calls once the service has refused one for its rate. A
task that is answered so sets the flag of the client as its very next action. From then on every
task that starts finds the flag, and a task that was under way when it was set had looked at the
flag at most once since its last call: each of them still reserves or looks up at most one entry.
-/

import Cicache.Lib.Allowance
import Cicache.Outcomes
import Cicache.Index
import Mathlib.Algebra.Order.BigOperators.Group.Finset
import Mathlib.Algebra.Group.Action.Defs

namespace Cicache

open Text Interleaving

/-- The calls that a set flag holds back: reserving an entry and looking one up. -/
def Act.asks : Act → Bool
  | .post _ _ (.CreateCacheEntry _ _) => true
  | .post _ _ (.GetCacheEntryDownloadURL _ _ _) => true
  | _ => false

/-- Any call to the service. -/
def Act.posts : Act → Bool
  | .post _ _ _ => true
  | _ => false

/-- The answers that remain possible once the flag is set. -/
def Remains : (action : Act) → Answer action → Prop
  | .load flag, answer => flag = .exhausted → answer = true
  | _, _ => True

/-- The answer is a rate limit. -/
def RateLimits : (action : Act) → Answer action → Prop
  | .post _ _ _, reply => GhaCache.limited reply = true
  | _, _ => False

/-- The program asks for nothing more once the flag is set, but for one call it was about to make,
and it sets the flag when it is refused. -/
structure Restrained {Result : Type} (program : Task Result) : Prop where
  sparing : program.Sparing Act.asks Remains
  heeds : program.Heeds RateLimits (.store .exhausted)

namespace Restrained

variable {Result Next : Type}

theorem finish (result : Result) : Restrained (.finish result : Task Result) :=
  ⟨.finish result, trivial⟩

theorem bind {program : Task Result} {next : Result → Task Next} (first : Restrained program)
    (rest : ∀ result, Restrained (next result)) : Restrained (program >>= next) :=
  ⟨first.sparing.bind fun result => (rest result).sparing,
    first.heeds.bind fun result => (rest result).heeds⟩

theorem asks_of_posts {action : Act} (other : action.posts = false) : action.asks = false := by
  cases action with
  | post url token request => cases other
  | _ => rfl

theorem not_rateLimits {action : Act} (other : action.posts = false) (answer : Answer action) :
    ¬ RateLimits action answer := by
  cases action with
  | post url token request => cases other
  | _ => exact id

/-- A program that never calls the service. -/
theorem of_within {program : Task Result}
    (within : program.Within fun action => action.posts = false) : Restrained program :=
  ⟨.of_within (within.mono fun _ => asks_of_posts),
    .of_within (within.mono fun _ => not_rateLimits)⟩

theorem act {action : Act} {next : Answer action → Task Result} (other : action.posts = false)
    (rest : ∀ answer, Restrained (next answer)) : Restrained (Cicache.act action >>= next) :=
  ⟨.act (asks_of_posts other) fun answer => (rest answer).sparing,
    fun answer => ⟨fun refused => absurd refused (not_rateLimits other answer),
      (rest answer).heeds⟩⟩

end Restrained

/-! ### Calls to the service -/

section Service

variable (crates : Crates) (gha : GhaCache)

/-- What follows the answer to a call. -/
theorem answered_restrained {Response : Type} (method : String)
    (from_str : String → Option Response) (reply : Option Reply) :
    Restrained (if GhaCache.limited reply = true then
        act (.store .exhausted) >>= fun _ =>
          .finish (GhaCache.received crates method from_str reply)
      else .finish (GhaCache.received crates method from_str reply)) := by
  split
  · exact .act rfl fun _ => .finish _
  · exact .finish _

theorem rpc_heeds {Response : Type} (method : String) (request : Request)
    (from_str : String → Option Response) :
    (gha.rpc crates method request from_str).Heeds RateLimits (.store .exhausted) := by
  rw [GhaCache.rpc_eq]
  refine fun reply => ⟨fun refused => ?_, (answered_restrained crates method from_str reply).heeds⟩
  have limited : GhaCache.limited reply = true := refused
  exact ⟨_, if_pos limited⟩

/-- A call that the flag does not hold back. -/
theorem rpc_restrained {Response : Type} {method : String} {request : Request}
    (free : ∀ url token, (Act.post url token request).asks = false)
    (from_str : String → Option Response) :
    Restrained (gha.rpc crates method request from_str) := by
  refine ⟨?_, rpc_heeds crates gha method request from_str⟩
  rw [GhaCache.rpc_eq]
  exact .act (free _ _) fun reply => (answered_restrained crates method from_str reply).sparing

/-- Looking at the flag before a call, and giving up when it is set. -/
theorem guarded_restrained {Response Result : Type} (method : String) (request : Request)
    (from_str : String → Option Response) (value : Result)
    {next : Except String Response → Task Result} (rest : ∀ result, Restrained (next result)) :
    Restrained (act (.load .exhausted) >>= fun exhausted =>
      if exhausted = true then .finish value
      else gha.rpc crates method request from_str >>= next) := by
  have calls : (gha.rpc crates method request from_str >>= next).Frugal Act.asks Remains := by
    rw [GhaCache.rpc_eq]
    exact .pay fun reply =>
      (answered_restrained crates method from_str reply).sparing.bind fun result =>
        (rest result).sparing
  constructor
  · refine .guard rfl (fun exhausted remains => ?_) fun exhausted => ?_
    · rw [remains rfl]
      exact .finish value
    · split
      · exact (Program.Sparing.finish value).later
      · exact calls
  · refine fun exhausted => ⟨False.elim, ?_⟩
    cases exhausted with
    | true => trivial
    | false =>
      exact (rpc_heeds crates gha method request from_str).bind fun result => (rest result).heeds

theorem fetch_restrained (key : String) (restore_keys : List String) :
    Restrained (gha.fetch crates key restore_keys) := by
  refine guarded_restrained crates gha _ _ _ _ fun answered => ?_
  cases answered with
  | error err => exact .finish _
  | ok response =>
    dsimp only
    split
    · exact .finish _
    · refine .act rfl fun downloaded => ?_
      cases downloaded with
      | none => exact .finish _
      | some answer =>
        dsimp only
        split
        · exact .finish _
        · split <;> exact .finish _

theorem put_restrained (key : String) (data : Bytes) : Restrained (gha.put crates key data) := by
  refine guarded_restrained crates gha _ _ _ _ fun answered => ?_
  cases answered with
  | error err =>
    dsimp only
    split <;> exact .finish _
  | ok create =>
    dsimp only
    split
    · exact .finish _
    · refine .act rfl fun uploaded => ?_
      cases uploaded with
      | none => exact .finish _
      | some status =>
        dsimp only
        split
        · exact .finish _
        · refine (rpc_restrained crates gha (fun _ _ => rfl) _).bind fun finalized => ?_
          cases finalized <;> exact .finish _

theorem put_scoped_restrained (run key_prefix scope kind : String) (body : Bytes) :
    Restrained (gha.put_scoped crates run key_prefix scope kind body) :=
  .act rfl fun _ => put_restrained crates gha _ _

end Service

/-! ### The store -/

theorem Queueing.posts {action : Act} (queueing : Queueing action) : action.posts = false := by
  cases action with
  | post url token request => cases queueing
  | _ => rfl

theorem Draining.posts {action : Act} (draining : Draining action) : action.posts = false := by
  cases action with
  | post url token request => cases draining
  | _ => rfl

theorem Forwarding.posts {action : Act} (forwarding : Forwarding action) :
    action.posts = false := by
  cases action with
  | post url token request => cases forwarding
  | _ => rfl

section Objects

variable (crates : Crates) (store : Store)

theorem write_restrained (path : String) (bytes : Bytes) : Restrained (write path bytes) :=
  .of_within (write_within rfl rfl)

theorem learn_restrained (keys : List String) : Restrained (Store.learn keys) := by
  induction keys with
  | nil => exact .finish ()
  | cons key rest inductionHypothesis => exact .act rfl fun _ => inductionHypothesis

theorem load_index_restrained : Restrained (store.load_index crates) := by
  unfold Store.load_index
  split
  · exact .finish ()
  · refine (fetch_restrained crates _ _ _).bind fun loaded => ?_
    rcases loaded with err | (_ | raw)
    · exact .finish ()
    · exact .finish ()
    · exact learn_restrained _

theorem unpack_restrained (objects : List Pack.Object) : Restrained (store.unpack objects) := by
  induction objects with
  | nil => exact .finish ()
  | cons object rest inductionHypothesis =>
    unfold Store.unpack
    refine (write_restrained _ _).bind fun written => ?_
    split
    · exact .act rfl fun _ => inductionHypothesis
    · exact inductionHypothesis

theorem load_pack_restrained : Restrained (store.load_pack crates) := by
  unfold Store.load_pack
  split
  · exact .finish _
  · refine (fetch_restrained crates _ _ _).bind fun loaded => ?_
    rcases loaded with err | (_ | raw)
    · exact .finish _
    · exact .finish _
    · dsimp only
      unfold Store.unpack_raw
      split
      · exact (unpack_restrained store _).bind fun _ => .finish _
      · exact .finish _
      · exact .finish _

theorem gather_restrained (keys : List String) : Restrained (store.gather keys) := by
  induction keys with
  | nil => exact .finish _
  | cons key rest inductionHypothesis =>
    unfold Store.gather
    refine .act rfl fun body => ?_
    cases body with
    | none => exact inductionHypothesis
    | some body => exact inductionHypothesis.bind fun _ => .finish _

theorem save_index_restrained : Restrained (store.save_index crates) := by
  unfold Store.save_index
  split
  · exact .finish ()
  · refine .act rfl fun dirty => ?_
    split
    · refine .act rfl fun keys => (put_scoped_restrained crates _ _ _ _ _ _).bind fun stored => ?_
      cases stored <;> exact .finish ()
    · exact .finish ()

theorem save_pack_restrained : Restrained (store.save_pack crates) := by
  unfold Store.save_pack
  split
  · exact .finish ()
  · refine .act rfl fun dirty => ?_
    split
    · refine .act rfl fun keys => (gather_restrained store _).bind fun objects => ?_
      dsimp only
      split
      · exact .finish ()
      · refine (put_scoped_restrained crates _ _ _ _ _ _).bind fun stored => ?_
        cases stored with
        | error err => exact .finish ()
        | ok _ => exact .of_within ⟨rfl, fun _ => trivial⟩
    · exact .finish ()

theorem flush_restrained : Restrained (store.flush crates) := by
  unfold Store.flush
  refine .act rfl fun _ => .act rfl fun handle => Restrained.bind ?_ fun _ =>
    (save_index_restrained crates store).bind fun _ => save_pack_restrained crates store
  unfold Store.await_uploader
  split
  · exact .of_within ⟨rfl, fun _ => trivial⟩
  · exact .finish ()

theorem get_restrained (key : String) : Restrained (store.get crates key) := by
  unfold Store.get
  refine .act rfl fun bytes => ?_
  cases bytes with
  | some bytes => exact .finish _
  | none =>
    dsimp only
    split
    · exact .finish _
    · refine .act rfl fun known => ?_
      split
      · refine .act rfl fun missed => ?_
        split
        · exact .finish _
        · refine (fetch_restrained crates _ _ _).bind fun fetched => ?_
          rcases fetched with err | (_ | bytes)
          · exact .act rfl fun _ => .finish _
          · exact .act rfl fun _ => .finish _
          · exact (write_restrained _ _).bind fun _ => .finish _
      · exact .finish _

theorem store_put_restrained (key : String) (bytes : Bytes) : Restrained (store.put key bytes) :=
  .of_within ((store_put_queueing store key bytes).mono fun _ => Queueing.posts)

theorem upload_round_restrained : Restrained store.upload_round :=
  .of_within ((upload_round_draining store).mono fun _ => Draining.posts)

theorem upload_restrained (gha : GhaCache) (key : String) (bytes : Bytes) :
    Restrained (Store.upload crates gha key bytes) := by
  unfold Store.upload
  refine (put_restrained crates gha _ _).bind fun stored => .of_within ?_
  rcases stored with err | (_ | _)
  · exact .act rfl fun _ => ⟨rfl, fun _ => trivial⟩
  · refine .act rfl fun added => ?_
    split
    · exact .act rfl fun _ => ⟨rfl, fun _ => trivial⟩
    · exact ⟨rfl, fun _ => trivial⟩
  · refine .act rfl fun _ => .act rfl fun added => ?_
    split
    · exact .act rfl fun _ => ⟨rfl, fun _ => trivial⟩
    · exact ⟨rfl, fun _ => trivial⟩

end Objects

/-! ### The proxy -/

section Requests

variable (crates : Crates) (proxy : Proxy)

theorem forward_restrained (method : Method) (url : Url) (headers : HeaderMap) (body : Bytes)
    (reject : Reject) : Restrained (Proxy.forward method url headers body reject) :=
  .of_within ((forward_passes method url headers body reject).mono fun _ passes => passes.1.posts)

theorem fetch_and_store_restrained (method : Method) (url : Url) (headers : HeaderMap)
    (key : String) : Restrained (proxy.fetch_and_store crates method url headers key) := by
  unfold Proxy.fetch_and_store
  refine .act rfl fun answer => ?_
  cases answer with
  | error err => exact .finish _
  | ok response =>
    dsimp only
    split
    · exact .act rfl fun _ => .act rfl fun _ => .finish _
    · split
      · exact .finish _
      · refine .act rfl fun _ => Restrained.bind ?_ fun _ => .act rfl fun _ => .finish _
        unfold Proxy.store_response
        split
        · refine .act rfl fun stored_at => ?_
          split
          · exact (store_put_restrained _ _ _).bind fun _ => .finish _
          · exact .finish _
        · exact .finish _

theorem lookup_restrained (key : String) : Restrained (proxy.lookup crates key) := by
  unfold Proxy.lookup
  refine (get_restrained crates _ _).bind fun raw => ?_
  cases raw with
  | none => exact .finish _
  | some raw =>
    dsimp only
    split <;> exact .finish _

theorem handle_restrained (method : Method) (headers : HeaderMap) (url : Url) :
    Restrained (proxy.handle crates method headers url) := by
  unfold Proxy.handle
  refine .act rfl fun collected => ?_
  cases collected with
  | error err => exact .finish _
  | ok body =>
    dsimp only
    split
    · exact forward_restrained _ _ _ _ _
    · refine (lookup_restrained crates proxy _).bind fun found => ?_
      cases found with
      | some entry => exact .act rfl fun _ => .finish _
      | none => exact fetch_and_store_restrained crates proxy _ _ _ _

theorem dispatch_restrained (request : ClientRequest) (tunnel_authority : Option String) :
    Restrained (proxy.dispatch crates request tunnel_authority) := by
  unfold Proxy.dispatch
  split
  · exact .of_within ((connect_passes _).mono fun _ passes => passes.1.posts)
  · split
    · unfold Proxy.control
      refine .of_within ?_
      split
      · exact trivial
      · split
        · exact .act rfl fun _ => trivial
        · split
          · exact .act rfl fun _ => trivial
          · exact trivial
    · unfold Proxy.proxied
      split
      · exact .finish _
      · refine (handle_restrained crates proxy _ _ _).bind fun result => ?_
        cases result with
        | ok response => exact .finish _
        | error message => exact .act rfl fun _ => .finish _

theorem call_restrained {arrival : Arrival} {program : Task Value}
    (called : Job.call crates proxy arrival = some program) : Restrained program := by
  cases arrival with
  | load_index => cases called; exact (load_index_restrained crates _).bind fun _ => .finish _
  | load_pack => cases called; exact (load_pack_restrained crates _).bind fun _ => .finish _
  | get key => cases called; exact (get_restrained crates _ _).bind fun _ => .finish _
  | put key bytes => cases called; exact (store_put_restrained _ _ _).bind fun _ => .finish _
  | flush => cases called; exact (flush_restrained crates _).bind fun _ => .finish _
  | request request tunnel_authority =>
    cases called
    exact (dispatch_restrained crates proxy _ _).bind fun _ => .finish _
  | tunnel => cases called
  | upload => cases called

/-- Every task of a job starts restrained. -/
theorem accept_restrained {id : TaskId} {arrival : Arrival} {before after : World}
    {program : Task Value}
    (accepted : Job.accept crates proxy id arrival before = some (program, after)) :
    Restrained program ∧ after = before := by
  rcases Job.accept_cases crates proxy accepted with ⟨number, -, called, rfl⟩ |
    ⟨number, host, port, -, -, rfl, rfl⟩ | ⟨number, key, bytes, gha, -, -, -, rfl, rfl⟩
  · exact ⟨call_restrained crates proxy called, rfl⟩
  · exact ⟨(Restrained.of_within ((serve_tunnel_passes proxy host port).mono
      fun _ passes => passes.1.posts)).bind fun _ => .finish _, rfl⟩
  · exact ⟨(upload_restrained crates gha key bytes).bind fun _ => .finish _, rfl⟩

/-- And so does every round of the upload loop. -/
theorem again_restrained {id : TaskId} {value : Value} {program : Task Value}
    (goesOn : Job.again proxy id value = some program) : Restrained program := by
  unfold Job.again at goesOn
  split at goesOn
  · cases goesOn
    exact (upload_round_restrained proxy.store).bind fun _ => .finish _
  · cases goesOn

end Requests

/-! ### A job that is refused -/

section Job

variable {crates : Crates} {proxy : Proxy} {world : World}
variable {events : List (Event TaskId Choice Arrival)} {now : Config Act Answer TaskId World Value}

/-- A task that has an action ahead, other than the upload loop. -/
def Waits (now : Config Act Answer TaskId World Value) (id : TaskId) : Prop :=
  id ≠ .uploader ∧ ∃ action next, now.tasks id = some (.perform action next)

/-- Wherever the tasks of a job are, each is frugal and heeds a refusal. -/
theorem tasks_restrained
    (ran : (Job.machine crates proxy).run (Job.idle proxy world) events = some now) :
    ∀ id program, now.tasks id = some program →
      program.Frugal Act.asks Remains ∧ program.Heeds RateLimits (.store .exhausted) := by
  refine Machine.tasks_of_run ran
    (fun program => program.Frugal Act.asks Remains ∧ program.Heeds RateLimits (.store .exhausted))
    (fun action next answer held => ⟨held.1.next answer, (held.2 answer).2⟩)
    (fun id value program goesOn => ?_) (fun id arrival before program shared accepted => ?_)
    fun id program task => ?_
  · have restrained := again_restrained proxy goesOn
    exact ⟨restrained.sparing.later, restrained.heeds⟩
  · have restrained := (accept_restrained crates proxy accepted).1
    exact ⟨restrained.sparing.later, restrained.heeds⟩
  · cases id with
    | uploader =>
      cases task
      have restrained := (upload_round_restrained proxy.store).bind fun again =>
        .finish (Value.round again)
      exact ⟨restrained.sparing.later, restrained.heeds⟩
    | _ => cases task

/-- The upload loop calls nobody. -/
theorem uploader_free
    (ran : (Job.machine crates proxy).run (Job.idle proxy world) events = some now)
    {later : List (Event TaskId Choice Arrival)} {after : Config Act Answer TaskId World Value}
    (goesOn : (Job.machine crates proxy).run now later = some after) :
    (pathOf .uploader ((Job.machine crates proxy).history now later)).countP
      (fun done => done.action.asks) = 0 := by
  have whole : (Job.machine crates proxy).run (Job.idle proxy world) (events ++ later) =
      some after := by
    rw [Machine.run_append, ran, Option.bind_some, goesOn]
  have within := Job.history_within whole (fun id action => id = .uploader → action.posts = false)
    (fun _ _ program _ => .of_all (fun _ => nofun) program)
    (fun _ _ _ => .of_all (fun _ => nofun) _)
    ((upload_round_draining proxy.store).mono fun _ draining _ => draining.posts)
    fun _ _ _ _ => .of_all (fun _ => nofun) _
  rw [Machine.history_append ran] at within
  refine List.countP_eq_zero.mpr fun done member => ?_
  rw [Restrained.asks_of_posts
    (within _ (List.mem_append_right _ (mem_pathOf.mp member)) rfl)]
  exact Bool.false_ne_true

/-- A set flag stays set, and every look at it finds it so. -/
theorem exec_exhausted {id : TaskId} {action : Act} {choice : Choice} {before after : World}
    {answer : Answer action} (limited : before.flags .exhausted = true)
    (result : World.exec id action choice before = some (answer, after)) :
    Remains action answer ∧ after.flags .exhausted = true := by
  refine ⟨?_, (exec_grows result).flags _ limited⟩
  cases action with
  | load flag =>
    cases result
    rintro rfl
    exact limited
  | _ => trivial

/-- The calls a task makes that a set flag holds back. -/
def asked (id : TaskId) (history : List (TaskId × Done Act Answer)) : Nat :=
  (pathOf id history).countP fun done => done.action.asks

open Classical in
/-- Once the flag is set, a task that was under way makes at most one more call that the flag holds
back, and every other task makes none. -/
theorem asked_le
    (ran : (Job.machine crates proxy).run (Job.idle proxy world) events = some now)
    (limited : now.shared.flags .exhausted = true) {later : List (Event TaskId Choice Arrival)}
    {after : Config Act Answer TaskId World Value}
    (goesOn : (Job.machine crates proxy).run now later = some after) (id : TaskId) :
    asked id ((Job.machine crates proxy).history now later) ≤ if Waits now id then 1 else 0 := by
  by_cases loop : id = .uploader
  · rw [loop, asked, uploader_free ran goesOn]
    exact Nat.zero_le _
  refine (Machine.spent_le goesOn (fun shared => shared.flags .exhausted = true) limited
    (fun id action choice before answer shared closed result => exec_exhausted closed result)
    (fun id value program round => (again_restrained proxy round).sparing.now)
    (fun id arrival before program shared closed accepted => ?_)
    (fun id => if ∃ action next, now.tasks id = some (.perform action next) then 1 else 0)
    (fun id program task => ?_) id).trans ?_
  · obtain ⟨restrained, rfl⟩ := accept_restrained crates proxy accepted
    exact ⟨restrained.sparing.now, closed⟩
  · cases program with
    | finish value => trivial
    | perform action next =>
      rw [if_pos ⟨action, next, task⟩]
      exact (tasks_restrained ran id _ task).1 [] _ .here
  · by_cases waits : ∃ action next, now.tasks id = some (.perform action next)
    · rw [if_pos waits, if_pos ⟨loop, waits⟩]
    · rw [if_neg waits]
      exact Nat.zero_le _

/-- A task that is refused for the rate of the job's calls sets the flag next. Once the flag is
set, a task that was under way reserves or looks up at most one more entry, a task that starts
later none, and the job as a whole at most as many as there were tasks under way. -/
theorem refused_calls
    (ran : (Job.machine crates proxy).run (Job.idle proxy world) events = some now) :
    (∀ event id url token request reply after, (Job.machine crates proxy).performed now event =
        some (id, ⟨.post url token request, some reply⟩) → reply.status = .TOO_MANY_REQUESTS →
      (Job.machine crates proxy).step now event = some after →
      ∃ next, after.tasks id = some (.perform (.store .exhausted) next)) ∧
    (now.shared.flags .exhausted = true → ∀ later after,
      (Job.machine crates proxy).run now later = some after →
      (∀ id, asked id ((Job.machine crates proxy).history now later) ≤ 1 ∧
        (¬ Waits now id → asked id ((Job.machine crates proxy).history now later) = 0)) ∧
      ∀ waiting : Finset TaskId, (∀ id, Waits now id → id ∈ waiting) →
        ((Job.machine crates proxy).history now later).countP (fun entry => entry.2.action.asks) ≤
          waiting.card) := by
  classical
  refine ⟨fun event id url token request reply after performed tooMany stepped => ?_,
    fun limited later after goesOn => ?_⟩
  · obtain ⟨choice, next, shared, rfl, task, result⟩ := Machine.performed_eq_some performed
    have refused : RateLimits (.post url token request) (some reply) := decide_eq_true tooMany
    obtain ⟨rest, closes⟩ := ((tasks_restrained ran id _ task).2 (some reply)).1 refused
    have acted : (Job.machine crates proxy).Stepped now (.run id choice)
        ⟨shared, Function.update now.tasks id (some (next (some reply)))⟩ := .acted task result
    cases stepped.symm.trans ((Machine.step_eq_some_iff ..).mpr acted)
    exact ⟨rest, by rw [← closes]; exact Function.update_self ..⟩
  · have each : ∀ id, asked id ((Job.machine crates proxy).history now later) ≤ 1 ∧
        (¬ Waits now id → asked id ((Job.machine crates proxy).history now later) = 0) := by
      intro id
      have most := asked_le ran limited goesOn id
      split at most
      · exact ⟨most, fun idle => absurd ‹Waits now id› idle⟩
      · exact ⟨most.trans Nat.one_pos.le, fun _ => Nat.le_zero.mp most⟩
    refine ⟨each, fun waiting covers => ?_⟩
    have total := countP_history (fun done : Done Act Answer => done.action.asks)
      ((Job.machine crates proxy).history now later) waiting fun entry member asks => by
        by_contra outside
        have none := (each entry.1).2 fun waits => outside (covers _ waits)
        exact List.countP_eq_zero.mp none entry.2 (mem_pathOf.mpr member) asks
    calc ((Job.machine crates proxy).history now later).countP (fun entry => entry.2.action.asks)
      _ = ∑ id ∈ waiting, asked id ((Job.machine crates proxy).history now later) := total
      _ ≤ ∑ _ ∈ waiting, 1 := Finset.sum_le_sum fun id _ => (each id).1
      _ = waiting.card := by rw [Finset.sum_const, smul_eq_mul, Nat.mul_one]

end Job

/-! ### One run -/

/-- Two uploads have found the flag unset when the first of them is refused and sets it. -/
def refusedUploads : List (Event TaskId Choice Arrival) :=
  putRuns 0 "t-0" ++ putRuns 1 "t-1" ++ spawnRuns ++ [.run .uploader .quiet] ++ spawnRuns ++
    [.arrive (.upload 0) .upload, .run (.upload 0) .quiet,
      .arrive (.upload 1) .upload, .run (.upload 1) .quiet,
      .run (.upload 0) (.replied (some ⟨.TOO_MANY_REQUESTS, ""⟩) .nothing), .run (.upload 0) .quiet]

/-- The second upload still makes its call; a third object is put and uploaded without one. -/
def lateUploads : List (Event TaskId Choice Arrival) :=
  [.run (.upload 1) (.replied none .nothing)] ++ putRuns 2 "t-2" ++ [.run .uploader .quiet] ++
    spawnRuns ++ [.arrive (.upload 2) .upload, .run (.upload 2) .quiet, .run (.upload 2) .quiet]

set_option maxRecDepth 8000 in
theorem refused_calls_uploads : ∃ now after : Config Act Answer TaskId World Value,
    (Job.machine .unknown unpackedProxy).run (Job.idle unpackedProxy offline) refusedUploads =
        some now ∧
      (Job.machine .unknown unpackedProxy).run now lateUploads = some after ∧
      asked (.upload 1) ((Job.machine .unknown unpackedProxy).history now lateUploads) = 1 ∧
      asked (.upload 2) ((Job.machine .unknown unpackedProxy).history now lateUploads) = 0 := by
  have ran : (Job.machine .unknown unpackedProxy).run (Job.idle unpackedProxy offline)
    refusedUploads = some _ := rfl
  have goesOn := (refused_calls ran).2 rfl lateUploads _ rfl
  refine ⟨_, _, ran, rfl, rfl, (goesOn.1 (.upload 2)).2 ?_⟩
  rintro ⟨-, action, next, task⟩
  cases task

end Cicache
