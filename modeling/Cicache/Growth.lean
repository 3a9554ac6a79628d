/-
This file says what no action ever takes back: sets, flags, logs and the service's records only
grow. Tasks may therefore rely on whatever they once found there. Keeping an invariant while the
others only add is the shape of every safety proof about a job, so the rule for it is stated once,
together with what it says of a call to the service.
-/

import Cicache.Footprint

namespace Cicache

open Text Interleaving

/-- Nothing that was there has gone. -/
structure Grows (before after : World) : Prop where
  sets : ∀ set, before.sets set ⊆ after.sets set
  flags : ∀ flag, before.flags flag = true → after.flags flag = true
  spawned : before.spawned <+: after.spawned
  built : before.built <+: after.built
  calls : before.service.calls <+: after.service.calls
  reserved : before.service.reserved <+: after.service.reserved
  blobs : before.service.blobs <+: after.service.blobs
  entries : before.service.entries <+: after.service.entries
  offers : before.service.offers <+: after.service.offers

namespace Grows

theorem rfl {world : World} : Grows world world where
  sets _ := Finset.Subset.refl _
  flags _ := id
  spawned := List.prefix_rfl
  built := List.prefix_rfl
  calls := List.prefix_rfl
  reserved := List.prefix_rfl
  blobs := List.prefix_rfl
  entries := List.prefix_rfl
  offers := List.prefix_rfl

theorem trans {first second third : World} (grows : Grows first second)
    (further : Grows second third) : Grows first third where
  sets set := (grows.sets set).trans (further.sets set)
  flags flag raised := further.flags flag (grows.flags flag raised)
  spawned := grows.spawned.trans further.spawned
  built := grows.built.trans further.built
  calls := grows.calls.trans further.calls
  reserved := grows.reserved.trans further.reserved
  blobs := grows.blobs.trans further.blobs
  entries := grows.entries.trans further.entries
  offers := grows.offers.trans further.offers

theorem isRely : IsRely fun (_ : TaskId) => Grows where
  refl _ _ := .rfl
  trans _ _ _ _ := .trans

/-- Adding to the service's records makes a state grow. -/
theorem of_service {world : World} {service : Service}
    (calls : world.service.calls <+: service.calls)
    (reserved : world.service.reserved <+: service.reserved)
    (blobs : world.service.blobs <+: service.blobs)
    (entries : world.service.entries <+: service.entries)
    (offers : world.service.offers <+: service.offers) :
    Grows world { world with service := service } :=
  { Grows.rfl with
    calls := calls
    reserved := reserved
    blobs := blobs
    entries := entries
    offers := offers }

end Grows

theorem exec_grows {id : TaskId} {action : Act} {choice : Choice} {before after : World}
    {answer : Answer action} (result : World.exec id action choice before = some (answer, after)) :
    Grows before after := by
  cases action with
  | insert set key =>
    cases result
    refine { Grows.rfl with sets := fun other => ?_ }
    by_cases same : other = set
    · rw [same, World.addKey_self]
      exact Finset.subset_insert _ _
    · rw [World.addKey_of_ne same]
  | store flag =>
    cases result
    refine { Grows.rfl with flags := fun other raised => ?_ }
    by_cases same : other = flag
    · rw [same, World.raise_self]
    · rw [World.raise_of_ne same, raised]
  | spawn item =>
    cases result
    exact { Grows.rfl with spawned := List.prefix_append _ _ }
  | build_entry url status headers body =>
    cases choice with
    | clock time =>
      cases result
      exact { Grows.rfl with built := List.prefix_append _ _ }
    | _ => cases result
  | post url token request =>
    cases choice with
    | replied reply effect =>
      cases result
      cases effect with
      | nothing =>
        exact .of_service (List.prefix_append _ _) List.prefix_rfl List.prefix_rfl List.prefix_rfl
          List.prefix_rfl
      | reserve url key =>
        exact .of_service (List.prefix_append _ _) (List.prefix_append _ _) List.prefix_rfl
          List.prefix_rfl List.prefix_rfl
      | commit item =>
        exact .of_service (List.prefix_append _ _) List.prefix_rfl List.prefix_rfl
          (List.prefix_append _ _) List.prefix_rfl
      | offer url item =>
        exact .of_service (List.prefix_append _ _) List.prefix_rfl List.prefix_rfl List.prefix_rfl
          (List.prefix_append _ _)
    | _ => cases result
  | put_blob url data =>
    cases choice with
    | uploaded status arrived =>
      cases arrived <;> cases result
      · exact .rfl
      · exact .of_service List.prefix_rfl List.prefix_rfl (List.prefix_append _ _) List.prefix_rfl
          List.prefix_rfl
    | _ => cases result
  | _ =>
    simp only [World.exec] at result
    (repeat' split at result) <;> cases result <;> exact { Grows.rfl with }

/-- Nor does a step take anything back. -/
theorem stepped_grows {crates : Crates} {proxy : Proxy}
    {before after : Config Act Answer TaskId World Value} {event : Event TaskId Choice Arrival}
    (stepped : (Job.machine crates proxy).Stepped before event after) :
    Grows before.shared after.shared := by
  cases stepped with
  | acted task result => exact exec_grows result
  | looped task result => exact .rfl
  | arrived free result =>
    rcases Job.accept_cases crates proxy result with ⟨_, _, _, rfl⟩ | ⟨_, _, _, _, _, _, rfl⟩ |
      ⟨_, _, _, _, _, _, _, _, rfl⟩ <;> exact .rfl

/-- Nor does a whole run. -/
theorem run_grows {crates : Crates} {proxy : Proxy}
    {start after : Config Act Answer TaskId World Value}
    {events : List (Event TaskId Choice Arrival)}
    (ran : (Job.machine crates proxy).run start events = some after) :
    Grows start.shared after.shared := by
  have reached : (Job.machine crates proxy).Reaches (fun _ _ => True) start after :=
    .of_run (fun _ _ _ => trivial) ran
  refine reached.preserves (fun config => Grows start.shared config.shared) ?_ .rfl
  exact fun _ _ _ _ stepped grows => grows.trans (stepped_grows stepped)

/-! ### Keeping an invariant -/

/-- The program keeps the invariant, while the environment keeps to a rule and the other tasks
only add, and ends with a postcondition that what others add does not undo. -/
abbrev Keeps {Result : Type} (permitted : TaskId → World → Act → Choice → Prop)
    (inv : World → Prop) (id : TaskId) (post : Result → World → Prop) (program : Task Result)
    (world : World) : Prop :=
  Safe (World.Acts permitted) inv (fun _ => Grows) id post program world

section Rules

variable {permitted : TaskId → World → Act → Choice → Prop} {inv : World → Prop} {id : TaskId}
variable {Result : Type} {post : Result → World → Prop} {world : World}

theorem World.Acts.grows {action : Act} {before after : World} {answer : Answer action}
    (acted : World.Acts permitted id action before answer after) : Grows before after :=
  exec_grows acted.choose_spec.2

/-- The rule for one action. -/
theorem Keeps.act {action : Act} {next : Answer action → Task Result}
    (step : ∀ now answer after, inv now → Grows world now →
      World.Acts permitted id action now answer after →
      inv after ∧ (Grows world after → Keeps permitted inv id post (next answer) after)) :
    Keeps permitted inv id post (act action >>= next) world := by
  refine Safe.act fun now answer after holds grows acted => ?_
  obtain ⟨kept, rest⟩ := step now answer after holds grows acted
  exact ⟨kept, fun _ _ => acted.grows, rest (grows.trans acted.grows)⟩

/-- The rule for programs of which each action keeps the invariant. -/
theorem Keeps.of_within {allowed : Act → Prop} {program : Task Result}
    (within : program.Within allowed)
    (each : ∀ action now answer after, allowed action → inv now →
      World.Acts permitted id action now answer after → inv after)
    (ends : ∀ value now, inv now → post value now) :
    Keeps permitted inv id post program world :=
  Safe.of_within within (fun action now answer after allows holds acted =>
    ⟨each action now answer after allows holds acted, fun _ _ => acted.grows⟩) ends world

/-- The rule for a call to the service: what it returns is what it received. -/
theorem Keeps.rpc {crates : Crates} {Response : Type} {gha : GhaCache} {method : String}
    {request : Request} {from_str : String → Option Response}
    {post : Except String Response → World → Prop}
    (posts : ∀ url token now reply after, inv now → Grows world now →
      World.Acts permitted id (.post url token request) now reply after →
      inv after ∧ (Grows world after → ∀ later, inv later → Grows after later →
        post (GhaCache.received crates method from_str reply) later))
    (limits : ∀ now after, inv now → World.Acts permitted id (.store .exhausted) now () after →
      inv after) :
    Keeps permitted inv id post (gha.rpc crates method request from_str) world := by
  rw [GhaCache.rpc_eq]
  refine Keeps.act fun now reply after holds grows acted => ?_
  obtain ⟨kept, learned⟩ := posts _ _ now reply after holds grows acted
  refine ⟨kept, fun grows => ?_⟩
  split
  · refine Keeps.act fun now' _ after' holds' grows' acted' => ?_
    refine ⟨limits now' after' holds' acted', fun _ => ?_⟩
    exact fun later held further =>
      learned grows later held (grows'.trans (acted'.grows.trans further))
  · exact fun later held further => learned grows later held further

end Rules

/-! ### The rules for `put` and `fetch` -/

namespace GhaCache

variable (crates : Crates)

/-- What `put` makes of the answer to a reservation: it ends, or goes on with an upload URL. -/
def creating (reply : Option Reply) : Except (Except String Bool) String :=
  match received crates "CreateCacheEntry" crates.createResponse reply with
  | .error err => if is_already_exists err then .error (.ok false) else .error (.error err)
  | .ok create =>
      if create.ok = false ∨ create.signed_upload_url = "" then .error (.ok false)
      else .ok create.signed_upload_url

/-- What `put` makes of the answer to the upload: the error it ends with, if any. -/
def transferring : Option StatusCode → Option String
  | none => some "uploading cache blob"
  | some status =>
      if status.is_success = false then some ("blob upload returned " ++ statusText crates status)
      else none

/-- What `put` makes of the answer to the finalization. -/
def finalizing (reply : Option Reply) : Except String Bool :=
  (received crates "FinalizeCacheEntryUpload" crates.finalizeUploadResponse reply).map (·.ok)

/-- What `fetch` makes of the answer to its call: it ends, or goes on with a download URL. -/
def locating (reply : Option Reply) : Except (Except String (Option Bytes)) String :=
  match received crates "GetCacheEntryDownloadURL" crates.downloadResponse reply with
  | .error err => .error (.error err)
  | .ok response =>
      if response.ok = false ∨ response.signed_download_url = "" then .error (.ok none)
      else .ok response.signed_download_url

/-- What `fetch` makes of the download. -/
def downloading (key : String) : Option (StatusCode × Option Bytes) → Except String (Option Bytes)
  | none => .error "downloading cache blob"
  | some (status, body) =>
      if status.is_success = false then
        .error ("download for " ++ key ++ " returned " ++ statusText crates status ++
          " despite the service offering it")
      else
        match body with
        | none => .error "reading cache blob"
        | some bytes => .ok (some bytes)

end GhaCache

section Calls

variable {permitted : TaskId → World → Act → Choice → Prop} {inv : World → Prop} {id : TaskId}
variable {crates : Crates} {gha : GhaCache} {key : String} {data : Bytes} {world : World}

/-- The rule for `put`: what each of its actions keeps, and what each of its ends is worth. -/
theorem Keeps.put {post : Except String Bool → World → Prop}
    {created uploaded : String → World → Prop}
    (lasts : ∀ value before after, inv before → inv after → Grows before after → post value before →
      post value after)
    (loads : ∀ now answer after, inv now → Grows world now →
      World.Acts permitted id (.load .exhausted) now answer after →
      inv after ∧ (answer = true → post (.ok false) after))
    (creates : ∀ url token now reply after, inv now → Grows world now →
      World.Acts permitted id (.post url token (.CreateCacheEntry key gha.version))
        now reply after →
      inv after ∧ match GhaCache.creating crates reply with
        | .error value => post value after
        | .ok signed => ∀ later, inv later → Grows after later → created signed later)
    (uploads : ∀ signed now status after, inv now → created signed now →
      World.Acts permitted id (.put_blob signed data) now status after →
      inv after ∧ match GhaCache.transferring crates status with
        | some err => post (.error err) after
        | none => ∀ later, inv later → Grows after later → uploaded signed later)
    (finalizes : ∀ signed url token now reply after, inv now → uploaded signed now →
      World.Acts permitted id
        (.post url token (.FinalizeCacheEntryUpload key gha.version (Nat.repr data.length)))
        now reply after → inv after ∧ post (GhaCache.finalizing crates reply) after)
    (limits : ∀ now after, inv now → World.Acts permitted id (.store .exhausted) now () after →
      inv after) :
    Keeps permitted inv id post (gha.put crates key data) world := by
  have ends : ∀ {value : Except String Bool} {after : World}, inv after → post value after →
      Keeps permitted inv id post (.finish value) after :=
    fun held reached later kept grows => lasts _ _ _ held kept grows reached
  unfold GhaCache.put
  refine Keeps.act fun now exhausted after kept grows acted => ?_
  obtain ⟨kept, limited⟩ := loads now exhausted after kept grows acted
  refine ⟨kept, fun grows => ?_⟩
  cases exhausted with
  | true => exact ends kept (limited rfl)
  | false =>
    have created : Keeps permitted inv id (fun value now => ∃ reply,
        value = GhaCache.received crates "CreateCacheEntry" crates.createResponse reply ∧
        match GhaCache.creating crates reply with
        | .error value => post value now
        | .ok signed => ∀ later, inv later → Grows now later → created signed later)
        (gha.rpc crates "CreateCacheEntry" (.CreateCacheEntry key gha.version)
          crates.createResponse) after := by
      refine Keeps.rpc (fun url token now' reply after' kept' grows' acted' => ?_) limits
      obtain ⟨kept', learned⟩ := creates url token now' reply after' kept' (grows.trans grows')
        acted'
      refine ⟨kept', fun _ later held further => ⟨reply, rfl, ?_⟩⟩
      cases made : GhaCache.creating crates reply with
      | error value =>
        rw [made] at learned
        exact lasts _ _ _ kept' held further learned
      | ok signed =>
        rw [made] at learned
        exact fun last keeps more => learned last keeps (further.trans more)
    refine created.bind Grows.isRely kept fun answered now' kept' => ?_
    rintro ⟨reply, rfl, made⟩
    unfold GhaCache.creating at made
    cases decoded : GhaCache.received crates "CreateCacheEntry" crates.createResponse reply with
    | error err =>
      rw [decoded] at made
      dsimp only at made ⊢
      split
      · rename_i exists'
        rw [if_pos exists'] at made
        exact ends kept' made
      · rename_i other
        rw [if_neg other] at made
        exact ends kept' made
    | ok create =>
      rw [decoded] at made
      dsimp only at made ⊢
      split
      · rename_i declined
        rw [if_pos declined] at made
        exact ends kept' made
      · rename_i granted
        rw [if_neg granted] at made
        refine Keeps.act fun last status after held further acted => ?_
        obtain ⟨kept, sent⟩ := uploads _ last status after held (made last held further) acted
        refine ⟨kept, fun _ => ?_⟩
        cases status with
        | none => exact ends kept sent
        | some status =>
          unfold GhaCache.transferring at sent
          dsimp only at sent ⊢
          split
          · rename_i failed
            rw [if_pos failed] at sent
            exact ends kept sent
          · rename_i success
            rw [if_neg success] at sent
            have finalized : Keeps permitted inv id (fun value now => ∃ reply,
                value = GhaCache.received crates "FinalizeCacheEntryUpload"
                  crates.finalizeUploadResponse reply ∧ post (GhaCache.finalizing crates reply) now)
                (gha.rpc crates "FinalizeCacheEntryUpload"
                  (.FinalizeCacheEntryUpload key gha.version (Nat.repr data.length))
                  crates.finalizeUploadResponse) after := by
              refine Keeps.rpc (fun url token now reply after held grows acted => ?_) limits
              obtain ⟨kept, done⟩ := finalizes _ url token now reply after held
                (sent now held grows) acted
              exact ⟨kept, fun _ later held further =>
                ⟨reply, rfl, lasts _ _ _ kept held further done⟩⟩
            refine finalized.bind Grows.isRely kept fun answered now held => ?_
            rintro ⟨reply, rfl, done⟩
            unfold GhaCache.finalizing at done
            cases decoded : GhaCache.received crates "FinalizeCacheEntryUpload"
                crates.finalizeUploadResponse reply with
            | error err =>
              rw [decoded] at done
              exact ends held done
            | ok finalize =>
              rw [decoded] at done
              exact ends held done

/-- The rule for `fetch`. -/
theorem Keeps.fetch {restore_keys : List String}
    {post : Except String (Option Bytes) → World → Prop}
    {offered : String → World → Prop}
    (lasts : ∀ value before after, inv before → inv after → Grows before after → post value before →
      post value after)
    (loads : ∀ now answer after, inv now → Grows world now →
      World.Acts permitted id (.load .exhausted) now answer after →
      inv after ∧ (answer = true → post (.ok none) after))
    (locates : ∀ url token now reply after, inv now → Grows world now →
      World.Acts permitted id
        (.post url token (.GetCacheEntryDownloadURL key gha.version restore_keys)) now reply after →
      inv after ∧ match GhaCache.locating crates reply with
        | .error value => post value after
        | .ok signed => ∀ later, inv later → Grows after later → offered signed later)
    (downloads : ∀ signed now answer after, inv now → offered signed now →
      World.Acts permitted id (.get_blob signed) now answer after →
      inv after ∧ post (GhaCache.downloading crates key answer) after)
    (limits : ∀ now after, inv now → World.Acts permitted id (.store .exhausted) now () after →
      inv after) :
    Keeps permitted inv id post (gha.fetch crates key restore_keys) world := by
  have ends : ∀ {value : Except String (Option Bytes)} {after : World}, inv after →
      post value after → Keeps permitted inv id post (.finish value) after :=
    fun held reached later kept grows => lasts _ _ _ held kept grows reached
  unfold GhaCache.fetch
  refine Keeps.act fun now exhausted after kept grows acted => ?_
  obtain ⟨kept, limited⟩ := loads now exhausted after kept grows acted
  refine ⟨kept, fun grows => ?_⟩
  cases exhausted with
  | true => exact ends kept (limited rfl)
  | false =>
    have located : Keeps permitted inv id (fun value now => ∃ reply,
        value = GhaCache.received crates "GetCacheEntryDownloadURL" crates.downloadResponse reply ∧
        match GhaCache.locating crates reply with
        | .error value => post value now
        | .ok signed => ∀ later, inv later → Grows now later → offered signed later)
        (gha.rpc crates "GetCacheEntryDownloadURL"
          (.GetCacheEntryDownloadURL key gha.version restore_keys) crates.downloadResponse)
            after := by
      refine Keeps.rpc (fun url token now' reply after' kept' grows' acted' => ?_) limits
      obtain ⟨kept', learned⟩ :=
        locates url token now' reply after' kept' (grows.trans grows') acted'
      refine ⟨kept', fun _ later held further => ⟨reply, rfl, ?_⟩⟩
      cases made : GhaCache.locating crates reply with
      | error value =>
        rw [made] at learned
        exact lasts _ _ _ kept' held further learned
      | ok signed =>
        rw [made] at learned
        exact fun last keeps more => learned last keeps (further.trans more)
    refine located.bind Grows.isRely kept fun answered now' kept' => ?_
    rintro ⟨reply, rfl, made⟩
    unfold GhaCache.locating at made
    cases decoded : GhaCache.received crates "GetCacheEntryDownloadURL" crates.downloadResponse
        reply with
    | error err =>
      rw [decoded] at made
      exact ends kept' made
    | ok response =>
      rw [decoded] at made
      dsimp only at made ⊢
      split
      · rename_i nothing
        rw [if_pos nothing] at made
        exact ends kept' made
      · rename_i granted
        rw [if_neg granted] at made
        refine Keeps.act fun last answer after held further acted => ?_
        obtain ⟨kept, done⟩ := downloads _ last answer after held (made last held further) acted
        refine ⟨kept, fun _ => ?_⟩
        unfold GhaCache.downloading at done
        rcases answer with _ | ⟨status, body⟩
        · exact ends kept done
        · dsimp only at done ⊢
          split
          · rename_i failed
            rw [if_pos failed] at done
            exact ends kept done
          · rename_i success
            rw [if_neg success] at done
            cases body <;> exact ends kept done

end Calls

end Cicache
