/-
This file settles which keys get into the index. An upload adds its key whenever `put` answers
that the key is stored or was declined, and `put` takes more for a decline than the service's word
that it holds the key: a rate limit that another call ran into, an answer that says neither yes
nor no, and any error text with the digits 409 in it. As long as none of these happens to a key
that is not accounted for, every key of the index was in the manifest the job read, or is held by
the service.
-/

import Cicache.Startup
import Mathlib.Data.List.Destutter

namespace Cicache

open Text Interleaving

/-! ### What the service holds -/

/-- The key a request is about. -/
def Request.key : Request → String
  | .CreateCacheEntry key _ => key
  | .FinalizeCacheEntryUpload key _ _ => key
  | .GetCacheEntryDownloadURL key _ _ => key

section Accounts

variable (crates : Crates) (twirp : String → Option String) (read : Finset String)

/-- The service refuses a reservation because the entry is already there. `twirp` reads the code
off the text of a Twirp error. -/
def AlreadyExists (reply : Reply) : Prop :=
  reply.status = .CONFLICT ∨
    reply.status.is_success = false ∧ twirp reply.text = some "already_exists"

/-- The call shows that the service holds the key. -/
def Confirms (key : String) : Request × Option Reply → Prop
  | (.CreateCacheEntry named _, some reply) => named = key ∧ AlreadyExists twirp reply
  | (.FinalizeCacheEntryUpload named _ _, some reply) =>
      named = key ∧ reply.status.is_success = true ∧
        ∃ response, crates.finalizeUploadResponse reply.text = some response ∧ response.ok = true
  | _ => False

/-- The key was in the manifest that was read, or the service holds it. -/
def Accounted (service : Service) (key : String) : Prop :=
  key ∈ read ∨ ∃ call ∈ service.calls, Confirms crates twirp key call

/-- With this answer to a call, `put` takes the key for declined. -/
def Declines (request : Request) (reply : Option Reply) : Prop :=
  match request with
  | .CreateCacheEntry _ _ =>
      match GhaCache.received crates "CreateCacheEntry" crates.createResponse reply with
      | .error err => is_already_exists err = true
      | .ok create => create.ok = false ∨ create.signed_upload_url = ""
  | .FinalizeCacheEntryUpload _ _ _ =>
      match GhaCache.received crates "FinalizeCacheEntryUpload" crates.finalizeUploadResponse
          reply with
      | .error _ => False
      | .ok finalize => finalize.ok = false
  | .GetCacheEntryDownloadURL _ _ _ => False

/-- The next action of an upload is sound: it does not begin under a rate limit, and is not
answered as a decline, unless its key is accounted for. -/
def Sound : TaskId → World → Act → Choice → Prop
  | .upload number, world, .load .exhausted, _ => world.flags .exhausted = true →
      ∀ key bytes, (number, key, bytes) ∈ world.spawned →
        Accounted crates twirp read world.service key
  | .upload _, world, .post _ _ request, .replied reply effect => Declines crates request reply →
      Accounted crates twirp read (world.service.answer request reply effect) request.key
  | _, _, _, _ => True

end Accounts

theorem declines_create_iff {crates : Crates} {key version : String}
    {reply : Option Reply} :
    Declines crates (.CreateCacheEntry key version) reply ↔
      GhaCache.creating crates reply = .error (.ok false) := by
  unfold Declines GhaCache.creating
  dsimp only
  cases GhaCache.received crates "CreateCacheEntry" crates.createResponse reply with
  | error err => by_cases there : is_already_exists err = true <;> simp [there]
  | ok create =>
    dsimp only
    by_cases declined : create.ok = false ∨ create.signed_upload_url = ""
    · rw [if_pos declined]
      exact iff_of_true declined rfl
    · rw [if_neg declined]
      exact iff_of_false declined nofun

theorem declines_finalize_iff {crates : Crates} {key version size : String} {reply : Option Reply} :
    Declines crates (.FinalizeCacheEntryUpload key version size) reply ↔
      GhaCache.finalizing crates reply = .ok false := by
  unfold Declines GhaCache.finalizing
  dsimp only
  cases GhaCache.received crates "FinalizeCacheEntryUpload" crates.finalizeUploadResponse reply with
  | error err => exact iff_of_false not_false nofun
  | ok finalize => exact (Except.ok.injEq ..).to_iff.symm

/-- The manifest is read once, before anything else. -/
def Serving (_ : World) (_ : TaskId) (arrival : Arrival) : Prop := arrival ≠ .load_index

/-! ### What an action does to a set of keys -/

/-- Only inserting into it changes a set. -/
theorem exec_sets {id : TaskId} {action : Act} {choice : Choice} {before after : World}
    {answer : Answer action} (result : World.exec id action choice before = some (answer, after))
    (set : KeySet) :
    after.sets set = before.sets set ∨ ∃ key, action = .insert set key ∧
      after.sets set = insert key (before.sets set) := by
  cases action with
  | insert other key =>
    cases result
    by_cases same : other = set
    · subst same
      exact Or.inr ⟨key, rfl, World.addKey_self _ _ _⟩
    · exact Or.inl (World.addKey_of_ne (Ne.symm same) _ _)
  | _ =>
    refine Or.inl ?_
    simp only [World.exec] at result
    (repeat' split at result) <;> cases result <;> rfl

/-! ### Vouching for what is added -/

/-- The service has the object by its word: it finalized the upload. -/
def Finalizes (crates : Crates) (request : Request) (reply : Option Reply) : Prop :=
  match request with
  | .FinalizeCacheEntryUpload _ _ _ => GhaCache.finalizing crates reply = .ok true
  | _ => False

/-- Whenever `put` answers for a key, the environment has accounted for it. -/
structure Vouches (crates : Crates) (permitted : TaskId → World → Act → Choice → Prop)
    (accounted : World → String → Prop) : Prop where
  lasts : ∀ {before after key}, accounted before key → Grows before after → accounted after key
  limited : ∀ {number world choice key bytes},
    permitted (.upload number) world (.load .exhausted) choice →
    world.flags .exhausted = true → (number, key, bytes) ∈ world.spawned → accounted world key
  answered : ∀ {number url token request before reply after},
    World.Acts permitted (.upload number) (.post url token request) before reply after →
    Declines crates request reply ∨ Finalizes crates request reply → accounted after request.key

/-- Every key of the index is accounted for. -/
def IndexKept (accounted : World → String → Prop) (world : World) : Prop :=
  ∀ key ∈ world.sets .index, accounted world key

section Uploads

variable {crates : Crates} {permitted : TaskId → World → Act → Choice → Prop}
variable {accounted : World → String → Prop}

/-- A program that keeps the index accounted for. -/
abbrev Careful {Result : Type} (permitted : TaskId → World → Act → Choice → Prop)
    (accounted : World → String → Prop) (id : TaskId) (post : Result → World → Prop)
    (program : Task Result) (world : World) : Prop :=
  Keeps permitted (IndexKept accounted) id post program world

section Steps

variable (vouches : Vouches crates permitted accounted)

include vouches

/-- An action that is no insertion into the index keeps it accounted for. -/
theorem IndexKept.step {id : TaskId} {action : Act} {before after : World}
    {answer : Answer action} (holds : IndexKept accounted before)
    (acted : World.Acts permitted id action before answer after)
    (other : ∀ key, action ≠ .insert .index key) : IndexKept accounted after := by
  have grows := acted.grows
  obtain ⟨choice, _, result⟩ := acted
  intro key member
  rcases exec_sets result .index with same | ⟨key', inserts, _⟩
  · exact vouches.lasts (holds key (same ▸ member)) grows
  · exact absurd inserts (other key')

/-- Inserting a key that is accounted for does so too. -/
theorem IndexKept.insert {id : TaskId} {key : String} {before after : World}
    {answer : Answer (.insert .index key)} (holds : IndexKept accounted before)
    (known : accounted before key)
    (acted : World.Acts permitted id (.insert .index key) before answer after) :
    IndexKept accounted after := by
  have grows := acted.grows
  obtain ⟨choice, _, result⟩ := acted
  cases result
  intro other member
  rw [World.addKey_self, Finset.mem_insert] at member
  rcases member with rfl | earlier
  · exact vouches.lasts known grows
  · exact vouches.lasts (holds other earlier) grows

/-- A key that `put` answers for, whatever the answer, is accounted for. -/
theorem put_careful (gha : GhaCache) {number : Nat} {key : String} {data : Bytes} {world : World}
    (spawned : (number, key, data) ∈ world.spawned) :
    Careful permitted accounted (.upload number)
      (fun value now => ∀ stored, value = .ok stored → accounted now key)
      (gha.put crates key data) world := by
  refine @Keeps.put _ _ _ _ _ _ _ _ _ (fun _ _ => True) (fun _ _ => True) ?_ ?_ ?_ ?_ ?_ ?_
  · exact fun value before after _ _ grows told stored same =>
      vouches.lasts (told stored same) grows
  · intro now exhausted after kept grows acted
    refine ⟨kept.step vouches acted nofun, fun limited stored _ => ?_⟩
    have further := acted.grows
    obtain ⟨choice, allowed, result⟩ := acted
    cases result
    exact vouches.limited allowed limited (grows.spawned.subset spawned)
  · intro url token now reply after kept grows acted
    refine ⟨kept.step vouches acted nofun, ?_⟩
    have declines : Declines crates (.CreateCacheEntry key gha.version) reply →
        accounted after key :=
      fun declined => vouches.answered acted (Or.inl declined)
    unfold Declines at declines
    unfold GhaCache.creating
    cases decoded : GhaCache.received crates "CreateCacheEntry" crates.createResponse reply with
    | error err =>
      simp only [decoded] at declines ⊢
      split
      · rename_i value same
        split at same
        · rename_i exists'
          exact fun stored _ => declines exists'
        · cases same
          exact nofun
      · exact fun _ _ _ => trivial
    | ok create =>
      simp only [decoded] at declines ⊢
      split
      · rename_i value same
        split at same
        · rename_i refused
          exact fun stored _ => declines refused
        · cases same
      · exact fun _ _ _ => trivial
  · intro signed now status after kept _ acted
    refine ⟨kept.step vouches acted nofun, ?_⟩
    split
    · exact nofun
    · exact fun _ _ _ => trivial
  · intro signed url token now reply after kept _ acted
    refine ⟨kept.step vouches acted nofun, fun stored finalized => ?_⟩
    refine vouches.answered acted ?_
    cases stored with
    | true => exact Or.inr finalized
    | false =>
      refine Or.inl ?_
      unfold GhaCache.finalizing at finalized
      unfold Declines
      cases decoded : GhaCache.received crates "FinalizeCacheEntryUpload"
          crates.finalizeUploadResponse reply with
      | error err =>
        rw [decoded] at finalized
        cases finalized
      | ok finalize =>
        rw [decoded] at finalized
        exact Except.ok.inj finalized
  · exact fun now after kept acted => kept.step vouches acted nofun

/-- The tasks that add nothing to the index keep it accounted for. -/
theorem careful_of_within {Result : Type} {id : TaskId} {program : Task Result}
    (within : program.Within fun action => ∀ key, action ≠ .insert .index key) (world : World) :
    Careful permitted accounted id (fun _ _ => True) program world :=
  Keeps.of_within within (fun _ _ _ _ allowed holds acted => holds.step vouches acted allowed)
    fun _ _ _ => trivial

theorem careful_of_plain {Result : Type} {id : TaskId} {program : Task Result}
    (within : program.Within Plain) (world : World) :
    Careful permitted accounted id (fun _ _ => True) program world :=
  careful_of_within vouches (within.mono fun _ => Plain.not_insert) world

/-- An upload adds its key only when it is accounted for. -/
theorem upload_careful (gha : GhaCache) {number : Nat} {key : String} {bytes : Bytes}
    {world : World} (spawned : (number, key, bytes) ∈ world.spawned)
    (holds : IndexKept accounted world) :
    Careful permitted accounted (.upload number) (fun _ _ => True)
      (Store.upload crates gha key bytes) world := by
  -- What follows an answer of `put` once the statistics are updated.
  have adds : ∀ state : World, accounted state key →
      Careful permitted accounted (.upload number) (fun _ _ => True) (do
        if ← act (.insert .index key) then
          act (.store .index_dirty)
          act .drop_permit
        else act .drop_permit : Task Unit) state := by
    intro state known
    refine Keeps.act fun now added after holds grows acted => ?_
    refine ⟨holds.insert vouches (vouches.lasts known grows) acted, fun _ => ?_⟩
    refine careful_of_plain vouches ?_ after
    split
    · exact .act ⟨nofun, nofun, nofun⟩ fun _ => ⟨⟨nofun, nofun, nofun⟩, fun _ => trivial⟩
    · exact ⟨⟨nofun, nofun, nofun⟩, fun _ => trivial⟩
  unfold Store.upload
  refine (put_careful vouches gha spawned).bind Grows.isRely holds fun stored now _ known => ?_
  rcases stored with err | (_ | _)
  · refine careful_of_plain vouches ?_ now
    exact .act ⟨nofun, nofun, nofun⟩ fun _ => ⟨⟨nofun, nofun, nofun⟩, fun _ => trivial⟩
  · exact adds now (known _ rfl)
  · refine Keeps.act fun later _ after holds _ acted => ?_
    exact ⟨holds.step vouches acted nofun, fun grows =>
      adds after (vouches.lasts (known _ rfl) grows)⟩

end Steps

/-- A call that is served adds nothing to the index. -/
theorem call_adds_nothing {proxy : Proxy} {arrival : Arrival} {program : Task Value}
    (called : Job.call crates proxy arrival = some program) (loads : arrival ≠ .load_index) :
    program.Within fun action => ∀ key, action ≠ .insert .index key := by
  by_cases asks : ∃ request, arrival = .request request none ∧ request.asksStatistics = true
  · obtain ⟨request, rfl, asks⟩ := asks
    cases called
    refine (yields_within (dispatch_asks crates proxy asks) _).mono ?_
    rintro action rfl key
    exact nofun
  · refine (call_plain called loads fun request asked => ?_).mono fun _ => Plain.not_insert
    exact Bool.eq_false_iff.mpr fun found => asks ⟨request, asked, found⟩

/-- The rely-guarantee rule applies to a job whose calls are careful. -/
theorem guards_careful (vouches : Vouches crates permitted accounted) (proxy : Proxy)
    {welcome : World → TaskId → Arrival → Prop}
    (calls : ∀ {world number arrival program}, welcome world (.call number) arrival →
      Job.call crates proxy arrival = some program →
      Careful permitted accounted (.call number) (fun _ _ => True) program world) :
    Guards (Job.machine crates proxy) (Permits permitted welcome) (World.Acts permitted)
      (IndexKept accounted) (fun _ => Grows) (fun _ _ _ => True) where
  isRely := Grows.isRely
  acted _ _ choice _ _ _ _ permitted _ task result := ⟨choice, permitted _ _ task, result⟩
  looped := by
    intro id value program state _ _ round
    cases id with
    | uploader =>
      cases value with
      | round goes =>
        cases goes <;> cases round
        refine careful_of_plain vouches ?_ state
        exact (yields_within (upload_round_filing _) _).mono fun _ => Filing.plain
      | _ => cases round
    | _ => cases round
  arrived := by
    intro config id arrival program after welcome guarded result
    rcases Job.accept_cases crates proxy result with ⟨number, rfl, called, rfl⟩ |
      ⟨number, host, port, rfl, opened, rfl, rfl⟩ |
      ⟨number, key, bytes, gha, rfl, waiting, client, rfl, rfl⟩
    · exact ⟨guarded.shared, fun _ _ => .rfl, calls welcome called⟩
    · refine ⟨guarded.shared, fun _ _ => .rfl, careful_of_plain vouches ?_ _⟩
      exact (yields_within (serve_tunnel_passes proxy host port) _).mono fun _ => Passing.plain
    · refine ⟨guarded.shared, fun _ _ => .rfl, ?_⟩
      exact (upload_careful vouches gha (lookup_mem waiting) guarded.shared).bind Grows.isRely
        guarded.shared fun _ _ _ _ => fun _ _ _ => trivial

/-- The rely-guarantee rule applies to a job that is served. -/
theorem guards_index (vouches : Vouches crates permitted accounted) (proxy : Proxy) :
    Guards (Job.machine crates proxy) (Permits permitted Serving) (World.Acts permitted)
      (IndexKept accounted) (fun _ => Grows) (fun _ _ _ => True) :=
  guards_careful vouches proxy fun welcome called =>
    careful_of_within vouches (call_adds_nothing called welcome) _

/-- It applies to a job whose calls insert only keys that are accounted for. -/
theorem guards_loading (vouches : Vouches crates permitted accounted) (proxy : Proxy)
    (loads : ∀ {number world key choice},
      permitted (.call number) world (.insert .index key) choice → accounted world key) :
    Guards (Job.machine crates proxy) (Permits permitted fun _ _ _ => True) (World.Acts permitted)
      (IndexKept accounted) (fun _ => Grows) (fun _ _ _ => True) := by
  refine guards_careful vouches proxy fun {_ _ _ program} _ _ => ?_
  have free : program.Within fun _ => True := .of_all (fun _ => trivial) program
  refine Keeps.of_within free ?_ fun _ _ _ => trivial
  intro action now answer after _ holds acted
  by_cases inserts : ∃ key, action = .insert .index key
  · obtain ⟨key, rfl⟩ := inserts
    exact holds.insert vouches (loads acted.choose_spec.1) acted
  · exact holds.step vouches acted fun key inserted => inserts ⟨key, inserted⟩

/-- A job that only has its upload loop is careful. -/
theorem guarded_idle (vouches : Vouches crates permitted accounted) (proxy : Proxy) {world : World}
    (holds : IndexKept accounted world) :
    Guarded (World.Acts permitted) (IndexKept accounted) (fun _ => Grows) (fun _ _ _ => True)
      (Job.idle proxy world) := by
  refine ⟨holds, fun id program task => ?_⟩
  cases id with
  | uploader =>
    cases task
    refine careful_of_plain vouches ?_ world
    exact (yields_within (upload_round_filing _) _).mono fun _ => Filing.plain
  | _ => cases task

end Uploads

/-! ### The index over a whole run -/

/-- Every key of the index is accounted for by the calls of the service. -/
def IndexAccounted (crates : Crates) (twirp : String → Option String) (read : Finset String)
    (world : World) : Prop :=
  ∀ key ∈ world.sets .index, Accounted crates twirp read world.service key

/-- While every upload is sound, the calls of the service account for every key. -/
theorem vouches_of_sound (crates : Crates) (twirp : String → Option String)
    (read : Finset String) : Vouches crates (Sound crates twirp read)
      fun world key => Accounted crates twirp read world.service key where
  lasts known grows :=
    known.imp_right fun ⟨call, member, confirms⟩ => ⟨call, grows.calls.subset member, confirms⟩
  limited allowed limited spawned := allowed limited _ _ spawned
  answered := by
    rintro number url token request before reply after ⟨choice, sound, result⟩ answers
    cases choice with
    | replied told effect =>
      cases result
      rcases answers with declines | finalizes
      · exact sound declines
      · have logged : (request, reply) ∈ (before.service.answer request reply effect).calls := by
          cases effect <;> exact List.mem_append_right _ (List.mem_singleton.mpr rfl)
        cases request with
        | FinalizeCacheEntryUpload key version size =>
          unfold Finalizes GhaCache.finalizing at finalizes
          cases decoded : GhaCache.received crates "FinalizeCacheEntryUpload"
              crates.finalizeUploadResponse reply with
          | error err =>
            simp only [decoded] at finalizes
            cases finalizes
          | ok finalize =>
            simp only [decoded] at finalizes
            obtain ⟨answer, rfl, success, parsed⟩ := GhaCache.received_eq_ok crates decoded
            exact Or.inr ⟨_, logged, rfl, success, finalize, parsed, Except.ok.inj finalizes⟩
        | _ => exact finalizes.elim
    | _ => cases result

/-- After reading the manifest, the index holds its keys and no other. -/
theorem index_of_loads {crates : Crates} {proxy : Proxy}
    {permitted : TaskId → World → Act → Choice → Prop} {id : TaskId} {read : Finset String}
    {service : Service} {built : List Built} {world : World}
    (loaded : LoadsIndex crates proxy.store permitted id read (Job.fresh proxy service built)
      world) : world.sets .index = read := by
  unfold LoadsIndex at loaded
  split at loaded
  · obtain ⟨rfl, rfl⟩ := loaded
    rfl
  · obtain ⟨fetched, middle, run, -, rfl⟩ := loaded
    have empty : middle.sets .index = ∅ := by
      refine run.preserves ((fetch_calling crates _ _ _).mono fun _ => Calling.plain)
        (fun now => now.sets .index = ∅) ?_ rfl
      rintro action before answer after plain ⟨_, _, result⟩ nothing
      rcases exec_sets result .index with same | ⟨key, inserts, _⟩
      · rw [same, nothing]
      · exact absurd inserts (plain.not_insert key)
    rw [World.addKeys_self, empty, Finset.empty_union]

/-- In a job that read the manifest, while every upload is sound, the index holds keys that were
in the manifest or that the service holds, and so does a manifest that is written from it. -/
theorem index_accounted (crates : Crates) (twirp : String → Option String) (proxy : Proxy)
    (service : Service) (built : List Built) (main : TaskId) (read : Finset String)
    (world : World) (config : Config Act Answer TaskId World Value)
    (loaded : LoadsIndex crates proxy.store (fun _ _ _ _ => True) main read
      (Job.fresh proxy service built) world)
    (reached : (Job.machine crates proxy).Reaches (Permits (Sound crates twirp read) Serving)
      (Job.idle proxy world) config) :
    IndexAccounted crates twirp read config.shared ∧
      ∀ keys : List String, keys.toFinset = config.shared.sets .index →
        ∀ line ∈ Store.manifestLines keys,
          Accounted crates twirp read config.shared.service line := by
  have vouches := vouches_of_sound crates twirp read
  have start := guarded_idle vouches proxy
    fun key member => Or.inl (index_of_loads loaded ▸ member)
  have accounted := (start.reaches (guards_index vouches proxy) reached).shared
  refine ⟨accounted, fun keys listed line member => accounted line ?_⟩
  rw [← listed, List.mem_toFinset]
  have sorted : line ∈ sort keys := (List.destutter_sublist _ _).subset member
  exact (List.perm_insertionSort _ _).mem_iff.mp sorted

/-! ### Two runs -/

/-- A proxy that files every object in an entry of its own. -/
def unpackedProxy : Proxy :=
  { exampleProxy with
    store := { exampleStore with config := { exampleStore.config with pack_threshold := 0 } } }

/-- A job that could not read the manifest. -/
def offline : World :=
  { Job.fresh unpackedProxy .empty [] with
    service := Service.empty.answer
      (.GetCacheEntryDownloadURL "t-index-job-" "version" ["t-index-job-"]) none .nothing }

theorem loads_offline (crates : Crates) (main : TaskId) :
    LoadsIndex crates unpackedProxy.store (fun _ _ _ _ => True) main ∅
      (Job.fresh unpackedProxy .empty []) offline :=
  ⟨.error "calling GetCacheEntryDownloadURL", offline,
    ⟨false, _, ⟨.quiet, trivial, rfl⟩, none, _, ⟨.replied none .nothing, trivial, rfl⟩, rfl, rfl⟩,
    rfl, (World.addKeys_empty _ _).symm⟩

/-- The texts of a service that accepts everything. -/
def acceptingSamples : Samples where
  digests := []
  texts := []
  creates := [(createdText "https://blob.example/0", ⟨true, "https://blob.example/0"⟩)]
  finalizes := [(finalizedText, ⟨true⟩)]
  downloads := []
  urls := []

/-- An object that the service accepts is accounted for. -/
theorem index_accounted_uploaded : ∃ config : Config Act Answer TaskId World Value,
    "t-0" ∈ config.shared.sets .index ∧
      IndexAccounted (.ofSamples acceptingSamples) (fun _ => none) ∅ config.shared := by
  have start : (Job.machine (.ofSamples acceptingSamples) unpackedProxy).Reaches
    (Permits (Sound (.ofSamples acceptingSamples) (fun _ => none) ∅) Serving)
    (Job.idle unpackedProxy offline) _ := .refl
  -- The object is put, on a disk that is full, and the upload loop takes it.
  have put := start.arrived (.call 0) (.put "t-0" [0x78]) rfl rfl nofun
  have queued := reaches_acted put (.call 0) .quiet (.insert .queued "t-0") rfl rfl trivial
  have unwritten := reaches_acted queued (.call 0) (.opened false)
    (.write_begin (unpackedProxy.store.path "t-0") [0x78]) rfl rfl trivial
  have cloned := reaches_acted unwritten (.call 0) .quiet .clone_sender rfl rfl trivial
  have sent := reaches_acted cloned (.call 0) .quiet (.send ("t-0", [0x78])) rfl rfl trivial
  have taken := reaches_acted sent .uploader .quiet .recv rfl rfl trivial
  have permit := reaches_acted taken .uploader .quiet .acquire rfl rfl trivial
  have spawned := reaches_acted permit .uploader .quiet (.spawn ("t-0", [0x78])) rfl rfl trivial
  -- The upload reserves, transfers and finalizes, and every call succeeds.
  have begun := spawned.arrived (.upload 0) .upload rfl rfl nofun
  have free := reaches_acted begun (.upload 0) .quiet (.load .exhausted) rfl rfl nofun
  have reserved := reaches_acted free (.upload 0)
    (.replied (some ⟨.OK, createdText "https://blob.example/0"⟩) .nothing)
    (.post _ "token" (.CreateCacheEntry "t-0" "version")) rfl rfl
    (fun declines => by rcases declines with refused | empty <;> contradiction)
  have stored := reaches_acted reserved (.upload 0) (.uploaded (some .OK) true)
    (.put_blob "https://blob.example/0" [0x78]) rfl rfl trivial
  have finalized := reaches_acted stored (.upload 0) (.replied (some ⟨.OK, finalizedText⟩) .nothing)
    (.post _ "token" (.FinalizeCacheEntryUpload "t-0" "version" "1")) rfl rfl
    (fun declines => by cases declines)
  have recorded := reaches_acted finalized (.upload 0) .quiet (.record_upload 1 true) rfl
    rfl trivial
  have added := reaches_acted recorded (.upload 0) .quiet (.insert .index "t-0") rfl rfl trivial
  exact ⟨_, Finset.mem_insert_self _ _, (index_accounted (.ofSamples acceptingSamples)
    (fun _ => none) unpackedProxy .empty [] .uploader ∅ offline _
    (loads_offline (.ofSamples acceptingSamples) .uploader) added).1⟩

/-- An object is put and sent to the upload loop, on a disk that is full. -/
def putRuns (number : Nat) (key : String) : List (Event TaskId Choice Arrival) :=
  [.arrive (.call number) (.put key [0x78]), .run (.call number) .quiet,
    .run (.call number) (.opened false), .run (.call number) .quiet, .run (.call number) .quiet]

/-- The upload loop takes an item and spawns its upload. -/
def spawnRuns : List (Event TaskId Choice Arrival) :=
  [.run .uploader .quiet, .run .uploader .quiet, .run .uploader .quiet]

/-- The reservation of the first object runs into the rate limit; the second upload begins. -/
def limitedRuns : List (Event TaskId Choice Arrival) :=
  putRuns 0 "t-0" ++ putRuns 1 "t-1" ++ spawnRuns ++ [.run .uploader .quiet] ++ spawnRuns ++
    [.arrive (.upload 0) .upload, .run (.upload 0) .quiet,
      .run (.upload 0) (.replied (some ⟨.TOO_MANY_REQUESTS, ""⟩) .nothing),
      .run (.upload 0) .quiet, .run (.upload 0) .quiet,
      .arrive (.upload 1) .upload, .run (.upload 1) .quiet, .run (.upload 1) .quiet]

set_option maxRecDepth 4000 in
/-- The second object was never offered to the service, and its key is in the index. -/
theorem index_unaccounted :
    ¬ ∀ (crates : Crates) (twirp : String → Option String) (proxy : Proxy) (service : Service)
      (built : List Built) (main : TaskId) (read : Finset String) (world : World)
      (config : Config Act Answer TaskId World Value),
      LoadsIndex crates proxy.store (fun _ _ _ _ => True) main read
        (Job.fresh proxy service built) world →
      (Job.machine crates proxy).Reaches (Permits (fun _ _ _ _ => True) Serving)
        (Job.idle proxy world) config →
      IndexAccounted crates twirp read config.shared := by
  intro always
  have ran : (Job.machine .unknown unpackedProxy).run (Job.idle unpackedProxy offline)
    limitedRuns = some _ := rfl
  have serves : ∀ config, ∀ event ∈ limitedRuns,
      Permits (fun _ _ _ _ => True) Serving config event := by
    intro config event member
    cases event with
    | run id choice => exact fun _ _ _ => trivial
    | arrive id arrival =>
      rintro rfl
      simp [limitedRuns, putRuns, spawnRuns] at member
  have reached := Machine.Reaches.of_run serves ran
  have accounted := always .unknown (fun _ => none) _ .empty [] _ ∅ _ _
    (loads_offline .unknown .uploader) reached "t-1" (Finset.mem_insert_self _ _)
  rcases accounted with read | ⟨call, member, confirms⟩
  · cases read
  · change call ∈ offline.service.calls ++
      [(.CreateCacheEntry "t-0" "version", some ⟨.TOO_MANY_REQUESTS, ""⟩)] at member
    rcases List.mem_cons.mp member with rfl | member
    · exact confirms
    · obtain rfl := List.mem_singleton.mp member
      exact absurd confirms.1 (by decide)

end Cicache
