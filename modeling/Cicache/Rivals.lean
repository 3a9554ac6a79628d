/-
This file settles what jobs that upload the same objects list in their manifests. The service gives
a key to the job that reserves it first and refuses it to the others; a job that is refused takes
the object to be there and lists its key. But a reservation is no entry: when the job that holds it
fails, the other one has listed what nobody can read. As long as an object is only taken to be there
when it is, every key that a manifest adds can be read.
-/

import Cicache.Fleet

namespace Cicache

open Text Interleaving

/-! ### A truthful service -/

namespace Service

/-- The key was reserved, or has an entry. -/
def Taken (service : Service) (key : String) : Prop :=
  key ∈ service.reserved.map Prod.snd ∨ service.Holds key

instance (service : Service) (key : String) : Decidable (service.Taken key) :=
  inferInstanceAs (Decidable (_ ∨ _))

/-- The entry of the key is found by those who ask for it. -/
def Readable (service : Service) (key : String) : Prop :=
  ∃ data, service.find key [] = some (key, data)

theorem readable_of_holds {service : Service} {key : String} (holds : service.Holds key) :
    service.Readable key := by
  obtain ⟨item, member, rfl⟩ := List.mem_map.mp holds
  obtain ⟨⟨named, data⟩, found⟩ := Option.isSome_iff_exists.mp
    (List.find?_isSome (p := fun other : Item => decide (other.1 = item.1)).mpr
      ⟨item, member, decide_eq_true rfl⟩)
  have same : named = item.1 := by simpa using List.find?_some found
  exact ⟨data, found.trans (by rw [same])⟩

end Service

/-- The environment is free, but for an honest service that reserves a key once, and refuses it with
409 exactly when it is taken. -/
def truthful (crates : Crates) (world : World) (action : Act) (choice : Choice) : Bool :=
  honest crates world action choice &&
    match action, choice with
    | .post _ _ (.CreateCacheEntry key _), .replied reply effect =>
        decide (world.service.Taken key → effect = .nothing) &&
          (!(reply.any fun reply => reply.status = .CONFLICT) || decide (world.service.Taken key))
    | _, _ => true

/-! ### What a manifest adds -/

section Manifests

variable {Jobs : Type} [DecidableEq Jobs] (crates : Crates) (proxies : Jobs → Proxy)
variable (service : Service) (events : List (Event (Jobs × TaskId) Choice Arrival))

/-- The keys a job learned from the manifest it read; no other call inserts into the index. -/
def Learned (job : Jobs) (key : String) : Prop :=
  ∃ number added, ((job, .call number), ⟨.insert .index key, added⟩) ∈
    Fleet.history crates proxies service events

/-- The service has a manifest of the job that lists the key, and the job had not learned it. -/
def Adds (after : Fleet Jobs) (job : Jobs) (key : String) : Prop :=
  (∃ id keys named,
    ((job, id), ⟨.iter .index, keys⟩) ∈ Fleet.history crates proxies service events ∧
    (named, Store.manifest keys) ∈ after.shared.part.entries ∧ key ∈ Store.manifestLines keys) ∧
  ¬ Learned crates proxies service events job key

/-- The job is flushed. -/
def Flushed (after : Fleet Jobs) (job : Jobs) : Prop :=
  ∃ number, .arrive (job, .call number) .flush ∈ events ∧
    after.tasks (job, .call number) = some (.finish .done)

end Manifests

/-- The next action of an upload is secured: it does not begin under a rate limit, and is not
answered as a decline, unless the job learned its key or the service has an entry of it. -/
def Secured (crates : Crates) (learned : String → Prop) : TaskId → World → Act → Choice → Prop
  | .upload number, world, .load .exhausted, _ => world.flags .exhausted = true →
      ∀ key bytes, (number, key, bytes) ∈ world.spawned → learned key ∨ world.service.Holds key
  | .upload _, world, .post _ _ request, .replied reply effect => Declines crates request reply →
      learned request.key ∨ (world.service.answer request reply effect).Holds request.key
  | _, _, _, _ => True

/-- Keys that a call inserts are learned. -/
def Learns (learned : String → Prop) (id : TaskId) (action : Act) : Prop :=
  ∀ number key, id = .call number → action = .insert .index key → learned key

section Secured

variable {Jobs : Type} [DecidableEq Jobs] {crates : Crates} {proxies : Jobs → Proxy}
variable {service : Service} {events : List (Event (Jobs × TaskId) Choice Arrival)}
variable {after : Fleet Jobs}

/-- Who finalized an upload has an entry of its key. -/
theorem holds_of_finalizes {world : World} {request : Request} {reply : Option Reply}
    {effect : Effect} (isHonest : world.service.honest crates request reply effect = true)
    (finalizes : Finalizes crates request reply) :
    (world.service.answer request reply effect).Holds request.key := by
  cases request with
  | FinalizeCacheEntryUpload key version size =>
    rcases finalizing_of_honest isHonest with ⟨_, not⟩ | ⟨url, data, rfl, _⟩
    · exact absurd finalizes not
    · change key ∈ (world.service.entries ++ [(key, data)]).map Prod.fst
      rw [List.map_append]
      exact List.mem_append_right _ (List.mem_singleton_self _)
  | _ => exact finalizes.elim

/-- While every upload is secured, every key it answers for was learned, or has an entry. -/
theorem vouches_of_secured (crates : Crates) (learned : String → Prop) :
    Vouches crates (fun id world action choice => truthful crates world action choice = true ∧
        Secured crates learned id world action choice ∧ Learns learned id action)
      fun world key => learned key ∨ world.service.Holds key where
  lasts known grows := known.imp_right fun holds => (grows.entries.map Prod.fst).subset holds
  limited allowed limited spawned := allowed.2.1 limited _ _ spawned
  answered := by
    rintro number url token request before reply after ⟨choice, ⟨truth, secured, _⟩, result⟩ answers
    cases choice with
    | replied told effect =>
      cases result
      rcases answers with declines | finalizes
      · exact secured declines
      · exact Or.inr (holds_of_finalizes (Bool.and_eq_true_iff.mp truth).1 finalizes)
    | _ => cases result

/-- What is listed from an index is in it. -/
theorem mem_of_manifestLines {keys : List String} {line : String}
    (member : line ∈ Store.manifestLines keys) : line ∈ keys := by
  have sorted : line ∈ sort keys := (List.destutter_sublist _ _).subset member
  exact (List.perm_insertionSort _ _).mem_iff.mp sorted

/-- While the uploads of every job are secured, the service has an entry of every key that a
manifest adds. -/
theorem added_readable
    (ran : (Fleet.machine crates proxies).run (Fleet.start proxies service) events =
      some after)
    (permitting : (Fleet.machine crates proxies).Permitting
      (Fleet.Permits fun job id world action choice =>
      truthful crates world action choice = true ∧
        Secured crates (Learned crates proxies service events job) id world action choice)
      (Fleet.start proxies service) events)
    {job : Jobs} {key : String} (adds : Adds crates proxies service events after job key) :
    after.shared.part.Readable key := by
  obtain ⟨⟨id, keys, named, listed, -, member⟩, new⟩ := adds
  -- What a call inserts was learned, by definition.
  have learning : (Fleet.machine crates proxies).Permitting
      (Fleet.Permits fun job id world action choice => truthful crates world action choice = true ∧
        Secured crates (Learned crates proxies service events job) id world action choice ∧
        Learns (Learned crates proxies service events job) id action)
      (Fleet.start proxies service) events := by
    intro front event back config parts ranFront
    have permits := permitting front event back config parts ranFront
    cases event with
    | arrive id arrival => trivial
    | run id choice =>
      obtain ⟨job, id⟩ := id
      intro action next task
      obtain ⟨truth, secured⟩ := permits action next task
      refine ⟨truth, secured, ?_⟩
      rintro number key rfl rfl
      exact ⟨number, _, parts ▸ Machine.mem_history ranFront (parts ▸ ran)
        (Machine.performed_acted task rfl)⟩
  obtain ⟨front, event, back, config, rfl, ranFront, performed⟩ := Machine.exists_performed listed
  obtain ⟨choice, next, shared, rfl, task, result⟩ := Machine.performed_eq_some performed
  rw [Machine.run_append, ranFront, Option.bind_some] at ran
  obtain ⟨before, behind⟩ := learning.append ranFront
  have kept := Fleet.index_kept (fun job => vouches_of_secured crates _)
    (fun allowed => Or.inl (allowed.2.2 _ _ rfl rfl)) (before.reaches ranFront) job
  obtain ⟨⟨answer, world⟩, executed, same⟩ := Option.map_eq_some_iff.mp result
  cases same
  have there : key ∈ (config.of served job).shared.sets .index := by
    have same : keys.toFinset = (config.of served job).shared.sets .index :=
      @listed_of_iter id _ _ _ _ _ executed
    rw [← same, List.mem_toFinset]
    exact mem_of_manifestLines member
  rcases kept key there with learned | holds
  · exact absurd learned new
  · have grows := Fleet.reaches_grows (behind.reaches ran) job
    exact Service.readable_of_holds ((grows.entries.map Prod.fst).subset holds)

end Secured

/-! ### Two runs -/

/-- The next step is one of an arrival, or its action passes a check. -/
def checks (check : World → Act → Choice → Bool) (config : Fleet Bool) :
    Event (Bool × TaskId) Choice Arrival → Bool
  | .run id choice =>
      match config.tasks id with
      | some (.perform action _) => check (config.of served id.1).shared action choice
      | _ => true
  | .arrive _ _ => true

theorem permits_of_checks {check : World → Act → Choice → Bool}
    {permitted : Bool → TaskId → World → Act → Choice → Prop}
    (sound : ∀ job id world action choice, check world action choice = true →
      permitted job id world action choice)
    (config : Fleet Bool) (event : Event (Bool × TaskId) Choice Arrival)
    (checked : checks check config event = true) : Fleet.Permits permitted config event := by
  cases event with
  | arrive id arrival => trivial
  | run id choice =>
    intro action next task
    rw [checks, show config.tasks id = some (.perform action next) from task] at checked
    exact sound _ _ _ _ _ checked

/-- No rate limit is in force, and a call is answered with success or about an entry that exists. -/
def secures (crates : Crates) (world : World) : Act → Choice → Bool
  | .load .exhausted, _ => !world.flags .exhausted
  | .post _ _ request, .replied reply effect =>
      (match request with
      | .CreateCacheEntry _ _ => (GhaCache.creating crates reply).isOk
      | .FinalizeCacheEntryUpload _ _ _ => (GhaCache.finalizing crates reply).toOption = some true
      | .GetCacheEntryDownloadURL _ _ _ => true) ||
        decide ((world.service.answer request reply effect).Holds request.key)
  | _, _ => true

theorem secured_of_secures {crates : Crates} {learned : String → Prop} {id : TaskId} {world : World}
    {action : Act} {choice : Choice} (checked : secures crates world action choice = true) :
    Secured crates learned id world action choice := by
  unfold Secured
  split
  · intro raised
    rw [secures, raised] at checked
    cases checked
  · intro declines
    refine Or.inr ?_
    rcases Bool.or_eq_true_iff.mp checked with answered | holds
    · split at answered
      · rw [declines_create_iff.mp declines] at answered
        cases answered
      · rw [declines_finalize_iff.mp declines] at answered
        cases answered
      · exact declines.elim
    · exact of_decide_eq_true holds
  · trivial

/-- The texts of a service that hands out two URLs. -/
def reservingSamples : Samples where
  digests := []
  texts := []
  creates := [(createdText "https://blob.example/0", ⟨true, "https://blob.example/0"⟩),
    (createdText "https://blob.example/1", ⟨true, "https://blob.example/1"⟩)]
  finalizes := [(finalizedText, ⟨true⟩)]
  downloads := []
  urls := []

/-- A job is flushed up to the manifest. -/
def flushRuns : List (Event TaskId Choice Arrival) :=
  [.arrive (.call 1) .flush, .run (.call 1) .quiet, .run (.call 1) .quiet,
    .run .uploader .quiet, .run .uploader .quiet, .run .uploader .quiet,
    .run (.call 1) .quiet, .run (.call 1) .quiet]

/-- A job writes its manifest. -/
def manifestRuns (keys : List String) (name url : String) :
    List (Event TaskId Choice Arrival) :=
  [.run (.call 1) (.listing keys), .run (.call 1) (.clock 0), .run (.call 1) .quiet,
    .run (.call 1) (.replied (some ⟨.OK, createdText url⟩) (.reserve url name)),
    .run (.call 1) (.uploaded (some .OK) true),
    .run (.call 1) (.replied (some ⟨.OK, finalizedText⟩) (.commit (name, Store.manifest keys)))]

/-- The events of one job. -/
def eventsAt {Jobs : Type} (job : Jobs) (events : List (Event TaskId Choice Arrival)) :
    List (Event (Jobs × TaskId) Choice Arrival) := events.map (Event.at job)

/-- A job puts an object, and its upload begins. -/
def begunRuns : List (Event TaskId Choice Arrival) :=
  putRuns 0 "t-0" ++ spawnRuns ++ [.arrive (.upload 0) .upload, .run (.upload 0) .quiet]

/-- A job reserves the key of its object. -/
def reservedRuns : List (Event TaskId Choice Arrival) :=
  begunRuns ++ [.run (.upload 0) (.replied (some ⟨.OK, createdText "https://blob.example/0"⟩)
    (.reserve "https://blob.example/0" "t-0"))]

/-- A job is refused the key of its object. -/
def refusedRuns : List (Event TaskId Choice Arrival) :=
  begunRuns ++ [.run (.upload 0) (.replied (some ⟨.CONFLICT, ""⟩) .nothing),
    .run (.upload 0) .quiet, .run (.upload 0) .quiet, .run (.upload 0) .quiet]

/-- A job is flushed and writes its manifest. -/
def listedRuns : List (Event TaskId Choice Arrival) :=
  flushRuns ++ manifestRuns ["t-0"] "t-index-job-0-1" "https://blob.example/1" ++
    [.run (.call 1) .quiet]

/-- The one job reserves the key, the other is refused, and the transfer of the first one fails. -/
def racedRuns : List (Event (Bool × TaskId) Choice Arrival) :=
  eventsAt true reservedRuns ++ eventsAt false refusedRuns ++
    eventsAt true ([.run (.upload 0) (.uploaded none false), .run (.upload 0) .quiet,
      .run (.upload 0) .quiet] ++ flushRuns ++ [.run (.call 1) .quiet]) ++
    eventsAt false listedRuns

/-- The one job stores its object before the other is refused. -/
def yieldedRuns : List (Event (Bool × TaskId) Choice Arrival) :=
  eventsAt true (reservedRuns ++ [.run (.upload 0) (.uploaded (some .OK) true),
    .run (.upload 0) (.replied (some ⟨.OK, finalizedText⟩) (.commit ("t-0", [0x78])))]) ++
    eventsAt false (refusedRuns ++ listedRuns)

/-- No call has inserted anything into an index. -/
def learnedNothing (history : List ((Bool × TaskId) × Done Act Answer)) : Bool :=
  history.all fun entry =>
    match entry with
    | ((_, .call _), ⟨.insert .index _, _⟩) => false
    | _ => true

theorem not_learned {crates : Crates} {proxies : Bool → Proxy} {service : Service}
    {events : List (Event (Bool × TaskId) Choice Arrival)}
    (nothing : learnedNothing (Fleet.history crates proxies service events) = true) {job : Bool}
    {key : String} : ¬ Learned crates proxies service events job key := by
  rintro ⟨number, added, member⟩
  exact absurd (List.all_eq_true.mp nothing _ member) Bool.false_ne_true

set_option maxRecDepth 8000 in
/-- The manifest of the job that was refused lists a key that nobody can read. -/
theorem raced_unreadable :
    ¬ ∀ (crates : Crates) (proxies : Bool → Proxy) (service : Service)
      (events : List (Event (Bool × TaskId) Choice Arrival)) (after : Fleet Bool),
      (Fleet.machine crates proxies).run (Fleet.start proxies service) events = some after →
      (Fleet.machine crates proxies).Permitting
        (Fleet.Permits fun _ _ world action choice => truthful crates world action choice = true)
        (Fleet.start proxies service) events →
      (∀ job, Flushed events after job) →
      ∀ job key, Adds crates proxies service events after job key →
        after.shared.part.Readable key := by
  intro always
  obtain ⟨ran, truth⟩ := Machine.Permitting.of_runChecked
    (permits_of_checks fun _ _ _ _ _ checked => checked)
    (show (Fleet.machine (.ofSamples reservingSamples) fun _ => unpackedProxy).runChecked
      (checks (truthful (.ofSamples reservingSamples)))
        (Fleet.start (fun _ => unpackedProxy) .empty)
        racedRuns = some _ from rfl)
  have flushed : ∀ job, .arrive (job, .call 1) .flush ∈ racedRuns := by
    intro job
    cases job <;> simp [racedRuns, eventsAt, listedRuns, flushRuns, Event.at]
  have nothing : learnedNothing (Fleet.history (.ofSamples reservingSamples)
    (fun _ => unpackedProxy) .empty racedRuns) = true := rfl
  obtain ⟨data, found⟩ := always _ _ _ _ _ ran truth
    (fun job => ⟨1, flushed job, by cases job <;> rfl⟩) false "t-0" ⟨⟨.call 1, ["t-0"],
      "t-index-job-0-1", List.mem_of_getElem? (i := 37) rfl, List.mem_singleton_self _,
      List.mem_singleton_self _⟩, not_learned nothing⟩
  cases found

set_option maxRecDepth 8000 in
/-- The manifest of a job that was refused an object that was there lists what can be read. -/
theorem yielded_readable : ∃ after : Fleet Bool,
    Adds (.ofSamples reservingSamples) (fun _ => unpackedProxy) .empty yieldedRuns after
      false "t-0" ∧
      after.shared.part.Readable "t-0" := by
  have sound : ∀ (job : Bool) (id : TaskId) (world : World) (action : Act) (choice : Choice),
      (truthful (.ofSamples reservingSamples) world action choice &&
        secures (.ofSamples reservingSamples) world action choice) = true →
      truthful (.ofSamples reservingSamples) world action choice = true ∧
        Secured (.ofSamples reservingSamples) (Learned (.ofSamples reservingSamples)
          (fun _ => unpackedProxy) .empty yieldedRuns job) id world action choice :=
    fun _ _ _ _ _ checked => (Bool.and_eq_true_iff.mp checked).imp_right secured_of_secures
  obtain ⟨ran, secured⟩ := Machine.Permitting.of_runChecked (permits_of_checks sound)
    (show (Fleet.machine (.ofSamples reservingSamples) fun _ => unpackedProxy).runChecked _
      (Fleet.start (fun _ => unpackedProxy) .empty) yieldedRuns = some _ from rfl)
  have nothing : learnedNothing (Fleet.history (.ofSamples reservingSamples)
    (fun _ => unpackedProxy) .empty yieldedRuns) = true := rfl
  have readable := @added_readable _ _ _ _ _ _ _ ran secured false "t-0"
  exact ⟨_, (and_iff_left_of_imp readable).mpr ⟨⟨.call 1, ["t-0"], "t-index-job-0-1",
    List.mem_of_getElem? (i := 29) rfl, List.mem_of_getElem? (i := 1) rfl,
    List.mem_singleton_self _⟩, not_learned nothing⟩⟩

end Cicache
