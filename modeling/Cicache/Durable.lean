/-
This file follows one object from the job that stored it to a job that asks for it. Once the service
has confirmed the object and a manifest of the same job, both are there to stay, and that manifest
and every later one lists the key: the manifest is made from the index when the upload of the object
has ended, and all that is filed under the key is the object that was put first. A later job that
reads the manifest then asks the service for the key, and gets the bytes.
-/

import Cicache.Chain
import Cicache.Putting
import Cicache.Tally

namespace Cicache

open Text Interleaving Program

/-! ### What the service has confirmed -/

/-- The service has confirmed that it finalized an entry of this name. -/
def Confirmed (crates : Crates) (past : List (TaskId × Done Act Answer)) (name : String) : Prop :=
  ∃ id url token version size reply,
    (id, ⟨.post url token (.FinalizeCacheEntryUpload name version size), reply⟩) ∈ past ∧
      GhaCache.finalizing crates reply = .ok true

theorem mem_calls {gha : GhaCache} {method : String} {request : Request} {reply : Option Reply} :
    ⟨.post (gha.base ++ SERVICE ++ "/" ++ method) gha.token request, reply⟩ ∈
      calls gha method request reply := List.mem_cons_self

/-- When `put` returns that the object was stored, the service has confirmed it. -/
theorem Puts.confirmed {crates : Crates} {gha : GhaCache} {key : String} {data : Bytes}
    {path : Trail} (puts : Puts crates gha key data path (.ok true)) :
    ∃ url token size reply,
      ⟨.post url token (.FinalizeCacheEntryUpload key gha.version size), reply⟩ ∈ path ∧
        GhaCache.finalizing crates reply = .ok true := by
  generalize same : Except.ok true = result at puts
  cases puts with
  | exhausted => cases same
  | @created reply _ made => exact absurd (same ▸ made) (creating_ne_stored crates reply)
  | transferred made failed => cases same
  | finalized made arrived =>
    exact ⟨_, _, _, _, List.mem_append_right _ (List.mem_cons_of_mem _ mem_calls), rfl⟩

/-- A key of an orderly service is found with its bytes. -/
theorem Service.Orderly.find {service : Service} (orderly : service.Orderly) {key : String}
    {data : Bytes} (member : (key, data) ∈ service.entries) :
    service.find key [] = some (key, data) := by
  have some : (service.find key []).isSome = true := by
    rw [Service.find, List.find?_isSome]
    exact ⟨_, member, decide_eq_true rfl⟩
  obtain ⟨⟨name, found⟩, is⟩ := Option.isSome_iff_exists.mp some
  obtain ⟨there, named⟩ := Service.find_eq_some is
  obtain rfl : name = key := named
  rw [is, orderly.same there member]

/-! ### The job that stores the object -/

namespace Delivery

section Run

variable {crates : Crates} {proxy : Proxy} {gha : GhaCache} {world : World}
variable {events : List (Event TaskId Choice Arrival)}
variable {after : Config Act Answer TaskId World Value}

/-- What `gha.put` returned is what the service has confirmed. -/
theorem Returned.confirmed {number : Nat} {key : String} {bytes : Bytes}
    (returned : Returned crates proxy gha world events after number key bytes (.ok true)) :
    Confirmed crates (history crates proxy world events) key := by
  obtain ⟨_, front, back, path, puts⟩ := returned
  obtain ⟨url, token, size, reply, member, stored⟩ := (put_finishes crates gha puts).confirmed
  refine ⟨.upload number, url, token, gha.version, size, reply, mem_pathOf.mp ?_, stored⟩
  rw [path]
  exact List.mem_append_left _ member

/-- A task that reads the index is a `flush`. -/
theorem Delivers.flushing (delivers : Delivers crates proxy world events after) {id : TaskId}
    {next : List String → Task Value}
    (saving : after.tasks id = some (.perform (.iter .index) next)) :
    .arrive id .flush ∈ events := by
  have waits : (reached crates proxy world events id).waits := by
    rcases (delivers.staged.tasks _ _ saving).1 with awaited | unawaited
    · exact Or.inr (Or.inl awaited)
    · exact Or.inr (Or.inr unawaited)
  rcases (delivers.lawful id).entered Stage.waits (fun _ => .arrive id .flush ∈ events)
    (fun _ _ allowed => (next_moves allowed).flush) waits with (same | same | same) |
      ⟨_, _, arrived⟩
  · cases same
  · cases same
  · cases same
  · exact arrived

/-- The job has stored the object: it is not a small one, its `put` was the first of its key and
returned before `flush` began, and the service has confirmed the entry. -/
structure Stored (crates : Crates) (proxy : Proxy) (gha : GhaCache) (world : World)
    (events : List (Event TaskId Choice Arrival)) (after : Config Act Answer TaskId World Value)
    (key : String) (bytes : Bytes) : Prop where
  put : ∃ front back middle call value, events = front ++ back ∧
    (Job.machine crates proxy).run (Job.idle proxy world) front = some middle ∧
    (∀ flusher, .arrive flusher .flush ∉ front) ∧
    Queues crates proxy world front call key bytes ∧
    proxy.store.config.pack_threshold ≤ bytes.length ∧
    middle.tasks (.call call) = some (.finish value)
  returned : ∃ number contents,
    Returned crates proxy gha world events after number key contents (.ok true)

section Prefix

variable (client : proxy.store.gha = some gha) (begun : Begun proxy world)
variable (storing : Storing events)
variable (ran : (Job.machine crates proxy).run (Job.idle proxy world) events = some after)
variable {early late : List (Event TaskId Choice Arrival)} (parts : events = early ++ late)
variable {config : Config Act Answer TaskId World Value}
variable (ranEarly : (Job.machine crates proxy).run (Job.idle proxy world) early = some config)
variable {key : String} {bytes : Bytes}
variable (stored : Stored crates proxy gha world events after key bytes)

include client begun storing ran parts ranEarly stored

/-- When the index is read for a manifest, it holds the key of the object. -/
theorem Stored.indexed {id : TaskId} {next : List String → Task Value}
    (saving : config.tasks id = some (.perform (.iter .index) next)) :
    key ∈ config.shared.sets .index := by
  obtain ⟨front, back, middle, call, value, split, ranFront, unflushed, queues, large, ended⟩ :=
    stored.put
  obtain ⟨number, contents, spawned, begins, rest, path, puts⟩ := stored.returned
  have storingEarly : Storing early := (parts ▸ storing).front
  have delivers : Delivers crates proxy world early config :=
    Delivery.delivers client begun storingEarly ranEarly
  -- A `flush` has arrived, so the `put` had returned.
  have before : front <+: early := by
    rcases List.prefix_or_prefix_of_prefix ⟨back, split.symm⟩ ⟨late, parts.symm⟩ with before | after
    · exact before
    · exact absurd (after.subset (delivers.flushing saving)) (unflushed id)
  obtain ⟨between, joined⟩ := before
  obtain ⟨upload, result, offered, _⟩ := (delivered client begun storingEarly ranEarly).whole front
    between middle call key bytes value id next joined.symm ranFront unflushed queues large ended
    saving
  have done := delivers.delivering.drained.done (delivers.waited storingEarly saving)
  obtain ⟨added, answer, settled⟩ := delivers.returned_settled client ranEarly done offered.1
  -- The upload has ended, so what it returned is what it returns at the end of the run.
  have whole : Delivers crates proxy world events after :=
    Delivery.delivers client begun storing ran
  have goesOn : (Job.machine crates proxy).run config late = some after := by
    rw [parts, Machine.run_append, ranEarly] at ran
    exact ran
  obtain ⟨rfl, rfl⟩ := whole.once ((run_grows goesOn).spawned.subset offered.1) spawned
  obtain ⟨_, first, earlyPath, earlyPuts⟩ := settled
  have longer : first ++ (settles key bytes added answer ++
      pathOf (.upload upload) ((Job.machine crates proxy).history config late)) =
        begins ++ rest := by
    rw [← path, parts, history, Machine.history_append ranEarly, pathOf_append, earlyPath,
      List.append_assoc]
  obtain ⟨-, rfl⟩ := earlyPuts.unique puts longer
  exact (delivers.index_iff client begun ranEarly done key).mpr
    (Or.inr ⟨upload, bytes, true, offered.1, first, _, earlyPath, earlyPuts⟩)

/-- Whatever is sent under the key is the object. -/
theorem Stored.sent {id : TaskId} {item : Item} {next : Unit → Task Value}
    (sending : config.tasks id = some (.perform (.send item) next)) (named : item.1 = key) :
    item.2 = bytes := by
  obtain ⟨front, back, middle, call, value, split, ranFront, _, queues, _, _⟩ := stored.put
  subst named
  have delivers : Delivers crates proxy world early config :=
    Delivery.delivers client begun (parts ▸ storing).front ranEarly
  have whole : Delivers crates proxy world events after :=
    Delivery.delivers client begun storing ran
  obtain ⟨holding, number, rfl, arrived⟩ := (delivers.staged.tasks _ _ sending).1
  have inserted : (TaskId.call number, (⟨.insert .queued item.1, true⟩ : Done Act Answer)) ∈
      history crates proxy world events := by
    rw [parts, history, Machine.history_append ranEarly]
    exact List.mem_append_left _ (delivers.owns_iff.mp (by rw [holding]; rfl))
  have queued : (TaskId.call call, (⟨.insert .queued item.1, true⟩ : Done Act Answer)) ∈
      history crates proxy world events := by
    rw [split, history, Machine.history_append ranFront]
    exact List.mem_append_left _ queues.2
  obtain ⟨⟩ : TaskId.call number = .call call := whole.delivering.owned.owner _ _ item.1
    (whole.owns_iff.mpr inserted) (whole.owns_iff.mpr queued)
  have same := Machine.arrive_unique ran (parts ▸ List.mem_append_left late arrived)
    (split ▸ List.mem_append_left back queues.1)
  exact (Arrival.put.inj same).2

end Prefix

end Run

end Delivery

/-- No object goes by the name of a manifest or a pack. -/
def Named (config : StoreConfig) (key : String) : Prop :=
  ∀ kind, kind = "index" ∨ kind = "pack" →
    startsWith key ( scoped_prefix config.key_prefix config.scope kind) = false

/-- No key of a URL goes by such a name. -/
theorem named_of_policy_key {crates : Crates} {policy : Policy} {config : StoreConfig}
    (same : policy.key_prefix = config.key_prefix) (url : Url) :
    Named config (policy.key crates url) :=
  fun _ isKind => policy_key_apart config.scope isKind (by rw [same]) url

section Fetch

variable {crates : Crates} {permitted : TaskId → World → Act → Choice → Prop} {id : TaskId}
variable {gha : GhaCache} {key : String} {restore_keys : List String} {before after : World}
variable {value : Except String (Option Bytes)}

end Fetch

end Cicache
