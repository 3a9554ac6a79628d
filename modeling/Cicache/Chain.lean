/-
This file follows the manifest of a scope from job to job. A job starts from the keys it reads and
never drops one, and all that it files under the name of a manifest is the list of its index. So as
long as every job can read the manifest that is there, a key that one manifest lists is listed by
every later one, whatever else fails and wherever the jobs are cut off.
-/

import Cicache.Fetching
import Cicache.Ledger
import Cicache.Rivals
import Cicache.Startup
import Mathlib.Logic.Relation

namespace Cicache

open Text Interleaving

/-! ### What files nothing -/

/-- The actions of reading the manifest or the pack and of looking an object up. -/
def Reading : Act → Prop
  | .insert set _ => set ≠ .queued
  | .load flag | .store flag => flag = .exhausted
  | .contains _ _ | .read _ | .write_begin _ _ | .write_end _ _ | .get_blob _ => True
  | .post _ _ (.GetCacheEntryDownloadURL _ _ _) => True
  | _ => False

/-- The actions of storing an object under this key. -/
def QueuesAs (key : String) : Act → Prop
  | .send item => item.1 = key
  | action => Queueing action

theorem Fetches.reading {action : Act} (fetches : Fetches action) : Reading action := by
  cases action with
  | load flag => exact fetches
  | store flag => exact fetches
  | get_blob url => trivial
  | post url token request =>
    cases request with
    | GetCacheEntryDownloadURL key version restore_keys => trivial
    | _ => exact fetches.elim
  | _ => exact fetches.elim

section Footprints

variable (crates : Crates) (store : Store)

theorem fetch_within_fetches (gha : GhaCache) (key : String) (restore_keys : List String) :
    (gha.fetch crates key restore_keys).Within Fetches := by
  unfold GhaCache.fetch
  refine .act rfl fun exhausted => ?_
  split
  · exact trivial
  · rw [GhaCache.rpc_eq]
    refine Program.Within.bind (.act trivial fun reply => ?_) fun answered => ?_
    · split
      · exact .act rfl fun _ => trivial
      · exact trivial
    · cases answered with
      | error err => exact trivial
      | ok response =>
        dsimp only
        split
        · exact trivial
        · refine .act trivial fun downloaded => ?_
          cases downloaded with
          | none => exact trivial
          | some answer =>
            dsimp only
            split
            · exact trivial
            · split <;> exact trivial

theorem fetch_reading (gha : GhaCache) (key : String) (restore_keys : List String) :
    (gha.fetch crates key restore_keys).Within Reading :=
  (fetch_within_fetches crates gha key restore_keys).mono fun _ => Fetches.reading

theorem load_index_reading : (store.load_index crates).Within Reading := by
  have learns : ∀ keys, (Store.learn keys).Within Reading := by
    intro keys
    induction keys with
    | nil => exact trivial
    | cons key rest inductionHypothesis =>
      exact .act (by rintro ⟨⟩) fun _ => inductionHypothesis
  unfold Store.load_index
  split
  · exact trivial
  · refine (fetch_reading crates _ _ _).bind fun loaded => ?_
    rcases loaded with err | (_ | raw)
    · exact trivial
    · exact trivial
    · exact learns _

theorem unpack_reading (objects : List Pack.Object) : (store.unpack objects).Within Reading := by
  induction objects with
  | nil => exact trivial
  | cons object rest inductionHypothesis =>
    unfold Store.unpack
    refine (write_within trivial trivial).bind fun written => ?_
    split
    · exact .act (by rintro ⟨⟩) fun _ => inductionHypothesis
    · exact inductionHypothesis

theorem load_pack_reading : (store.load_pack crates).Within Reading := by
  unfold Store.load_pack
  split
  · exact trivial
  · refine (fetch_reading crates _ _ _).bind fun loaded => ?_
    rcases loaded with err | (_ | raw)
    · exact trivial
    · exact trivial
    · dsimp only
      unfold Store.unpack_raw
      split
      · exact (unpack_reading store _).bind fun _ => trivial
      · exact trivial
      · exact trivial

theorem get_reading (key : String) : (store.get crates key).Within Reading := by
  unfold Store.get
  refine .act trivial fun bytes => ?_
  cases bytes with
  | some bytes => exact trivial
  | none =>
    dsimp only
    split
    · exact trivial
    · refine .act trivial fun known => ?_
      split
      · refine .act trivial fun missed => ?_
        split
        · exact trivial
        · refine (fetch_reading crates _ _ _).bind fun fetched => ?_
          rcases fetched with err | (_ | bytes)
          · exact .act (by rintro ⟨⟩) fun _ => trivial
          · exact .act (by rintro ⟨⟩) fun _ => trivial
          · exact (write_within trivial trivial).bind fun _ => trivial
      · exact trivial

theorem store_put_queues (key : String) (bytes : Bytes) :
    (store.put key bytes).Within (QueuesAs key) := by
  unfold Store.put
  refine .act (Or.inl rfl) fun fresh => ?_
  split
  · refine (write_within trivial trivial).bind fun _ => ?_
    split
    · refine .act (Or.inr rfl) fun added => ?_
      split
      · exact ⟨rfl, fun _ => trivial⟩
      · exact trivial
    · refine .act trivial fun cloned => ?_
      split
      · exact ⟨rfl, fun _ => trivial⟩
      · exact trivial
  · exact trivial

/-- A request forwards, builds an entry, looks its URL up and stores what came under the key of
the URL. -/
theorem dispatch_within_of {allowed : Act → Prop} (proxy : Proxy) (request : ClientRequest)
    (tunnel_authority : Option String) (forwards : ∀ action, Forwarding action → allowed action)
    (builds : ∀ url status headers body, allowed (.build_entry url status headers body))
    (reads : ∀ action, Reading action → allowed action)
    (queues : ∀ url action, QueuesAs (proxy.policy.key crates url) action → allowed action) :
    (proxy.dispatch crates request tunnel_authority).Within allowed := by
  have fetches : ∀ method url headers, (proxy.fetch_and_store crates method url headers
      (proxy.policy.key crates url)).Within allowed := by
    intro method url headers
    unfold Proxy.fetch_and_store
    refine .act (forwards _ trivial) fun answer => ?_
    cases answer with
    | error err => exact trivial
    | ok response =>
      dsimp only
      split
      · exact .act (forwards _ trivial) fun _ => .act (forwards _ trivial) fun _ => trivial
      · split
        · exact trivial
        · refine .act (forwards _ trivial) fun _ => Program.Within.bind ?_ fun _ =>
            .act (forwards _ trivial) fun _ => trivial
          unfold Proxy.store_response
          split
          · refine .act (builds _ _ _ _) fun stored_at => ?_
            split
            · exact ((store_put_queues _ _ _).mono (queues url)).bind fun _ => trivial
            · exact trivial
          · exact trivial
  have handles : ∀ url,
      (proxy.handle crates request.method request.headers url).Within allowed := by
    intro url
    unfold Proxy.handle
    refine .act (forwards _ trivial) fun collected => ?_
    cases collected with
    | error err => exact trivial
    | ok body =>
      dsimp only
      split
      · exact (forward_passes _ _ _ _ _).mono fun action passes => forwards action passes.1
      · refine Program.Within.bind ?_ fun found => ?_
        · unfold Proxy.lookup
          refine ((get_reading crates _ _).mono reads).bind fun raw => ?_
          cases raw with
          | none => exact trivial
          | some raw =>
            dsimp only
            split <;> exact trivial
        · cases found with
          | some entry => exact .act (forwards _ trivial) fun _ => trivial
          | none => exact fetches _ _ _
  unfold Proxy.dispatch
  split
  · exact (connect_passes _).mono fun action passes => forwards action passes.1
  · split
    · unfold Proxy.control
      split
      · exact trivial
      · split
        · exact .act (forwards _ trivial) fun _ => trivial
        · split
          · exact .act (forwards _ rfl) fun _ => trivial
          · exact trivial
    · exact proxied_within_of_handle crates proxy request tunnel_authority handles
        fun _ _ _ _ _ => forwards _ trivial

end Footprints

/-! ### The manifests of a scope -/

/-- The keys that the newest manifest with such a name lists. -/
def Service.listed (service : Service) (front : String) : List String :=
  match service.newest front with
  | some item => Store.manifestKeys item.2
  | none => []

/-- What is filed under the name of a manifest lists these keys. -/
def Retains (front : String) (kept : String → Prop) (name : String) (data : Bytes) : Prop :=
  startsWith name front = true → ∀ key, kept key → key ∈ Store.manifestKeys data

/-- Dropping repetitions drops no element. -/
theorem mem_destutter {Element : Type} [DecidableEq Element] {element : Element}
    {list : List Element} (member : element ∈ list) : element ∈ list.destutter (· ≠ ·) := by
  have behind : ∀ (rest : List Element) (first : Element), element = first ∨ element ∈ rest →
      element ∈ rest.destutter' (· ≠ ·) first := by
    intro rest
    induction rest with
    | nil =>
      rintro first (rfl | later)
      · exact List.mem_singleton_self _
      · cases later
    | cons next others inductionHypothesis =>
      intro first here
      rw [List.destutter'_cons]
      split
      · rcases here with rfl | later
        · exact List.mem_cons_self
        · exact List.mem_cons_of_mem _ (inductionHypothesis next (List.mem_cons.mp later))
      · rename_i same
        refine inductionHypothesis first ?_
        rcases here with rfl | later
        · exact Or.inl rfl
        · rcases List.mem_cons.mp later with rfl | later
          · exact Or.inl (not_not.mp same).symm
          · exact Or.inr later
  cases list with
  | nil => cases member
  | cons first rest => exact behind rest first (List.mem_cons.mp member)

/-- A key that is a line is among the keys of every manifest made from it. -/
theorem mem_manifestKeys {keys : List String} {key : String} (isLine : IsLine key.toList)
    (visible : isBlank key = false) (member : key ∈ keys) :
    key ∈ Store.manifestKeys (Store.manifest keys) := by
  have sorted : key ∈ sort keys := (List.perm_insertionSort _ _).mem_iff.mpr member
  have listed : key ∈ Store.manifestLines keys := mem_destutter sorted
  rw [Store.manifestKeys, Store.manifest, fromUtf8Lossy_utf8, List.mem_filter]
  exact ⟨mem_lines_joinLines isLine listed, by rw [visible]; rfl⟩

/-- Among the entries of a service that was added to, the newest of a kind is a new one, or the one
from before when none of the new ones is of the kind. -/
theorem Service.newest_since {base service : Service} (grown : base.entries <+: service.entries)
    (front : String) :
    (∃ item ∈ since base.entries service.entries, startsWith item.1 front = true ∧
        service.newest front = some item) ∨ service.newest front = base.newest front := by
  unfold Service.newest
  rw [← append_since grown, List.reverse_append, List.find?_append]
  cases inside : (since base.entries service.entries).reverse.find?
      (fun item => startsWith item.1 front) with
  | none => exact Or.inr rfl
  | some item =>
    refine Or.inl ⟨item, ?_, by simpa using List.find?_some inside, rfl⟩
    rw [append_since grown]
    exact List.mem_reverse.mp (List.mem_of_find?_eq_some inside)

/-- What is filed retains the keys, and so does the newest manifest. -/
theorem Filed.listed {base service : Service} {front : String} {kept : String → Prop}
    {fit : String → Bytes → Prop} (filed : Filed fit base service)
    (retains : ∀ {name data}, fit name data → Retains front kept name data)
    (from_base : ∀ key, kept key → key ∈ base.listed front) :
    ∀ key, kept key → key ∈ service.listed front := by
  intro key keep
  rcases Service.newest_since filed.entries front with ⟨item, added, starts, found⟩ | same
  · rw [Service.listed, found]
    exact retains (filed.fits item added) starts key keep
  · rw [Service.listed, same]
    exact from_base key keep

/-! ### One job -/

/-- A manifest that is filed lists the keys to keep, and whatever is filed is among the allowed
items. -/
def Fit (front : String) (kept : String → Prop) (allowed : Item → Prop) (name : String)
    (data : Bytes) : Prop := Retains front kept name data ∧ allowed (name, data)

/-- The item is allowed, and does not go by the name of a manifest. -/
def Passes (front : String) (allowed : Item → Prop) (item : Item) : Prop :=
  startsWith item.1 front = false ∧ allowed item

/-- Everything on its way to the service passes. -/
structure Sending (front : String) (allowed : Item → Prop) (world : World) : Prop where
  queue : ∀ item ∈ world.queue, Passes front allowed item
  spawned : ∀ number item, (number, item) ∈ world.spawned → Passes front allowed item

/-- What an action that sends or spawns an item is given. -/
def SendsPassing (front : String) (allowed : Item → Prop) : Act → Prop
  | .send item | .spawn item => Passes front allowed item
  | _ => True

theorem Sending.step {front : String} {allowed : Item → Prop} {id : TaskId} {action : Act}
    {choice : Choice} {before after : World} {answer : Answer action}
    (sending : Sending front allowed before) (passing : SendsPassing front allowed action)
    (result : World.exec id action choice before = some (answer, after)) :
    Sending front allowed after := by
  cases action with
  | send item =>
    cases result
    refine ⟨fun other member => ?_, sending.spawned⟩
    rcases List.mem_append.mp member with earlier | now
    · exact sending.queue other earlier
    · cases List.mem_singleton.mp now
      exact passing
  | recv =>
    simp only [World.exec] at result
    split at result
    · rename_i item rest waiting
      cases result
      exact ⟨fun other member => sending.queue other
        (waiting ▸ List.mem_cons_of_mem item member), sending.spawned⟩
    · split at result
      · cases result
        exact sending
      · cases result
  | spawn item =>
    cases result
    refine ⟨sending.queue, fun number other member => ?_⟩
    rcases List.mem_append.mp member with earlier | now
    · exact sending.spawned number other earlier
    · cases List.mem_singleton.mp now
      exact passing
  | _ =>
    simp only [World.exec] at result
    (repeat' split at result) <;> cases result <;> exact ⟨sending.queue, sending.spawned⟩

/-- The environment is free, but for an honest service. -/
def Honestly (crates : Crates) (_ : TaskId) (world : World) (action : Act) (choice : Choice) :
    Prop :=
  honest crates world action choice = true

/-- What a rule of the environment grants a job: an honest service, an index that holds the keys to
keep when a manifest is made from it, and that only allowed items are sent. -/
structure Grants (crates : Crates) (kept : String → Prop) (allowed : Item → Prop)
    (permitted : TaskId → World → Act → Choice → Prop) : Prop where
  honest : ∀ {id world action choice}, permitted id world action choice →
    honest crates world action choice = true
  lists : ∀ {id world choice}, permitted id world (.iter .index) choice → ∀ key, kept key →
    key ∈ world.sets .index
  sends : ∀ {id world choice item}, permitted id world (.send item) choice → allowed item

section Programs

variable {crates : Crates} {front : String} {kept : String → Prop} {allowed : Item → Prop}
variable {permitted : TaskId → World → Act → Choice → Prop} {base : Service} {id : TaskId}

/-- What is filed is fit, and what is on its way passes. -/
def Carries (front : String) (kept : String → Prop) (allowed : Item → Prop) (base : Service)
    (world : World) : Prop :=
  Filed (Fit front kept allowed) base world.service ∧ Sending front allowed world

/-- A program that keeps it so. -/
abbrev Carried {Result : Type} (permitted : TaskId → World → Act → Choice → Prop) (front : String)
    (kept : String → Prop) (allowed : Item → Prop) (base : Service) (id : TaskId)
    (program : Task Result) (world : World) : Prop :=
  Keeps permitted (Carries front kept allowed base) id (fun _ _ => True) program world

/-- An action that files nothing, and sends nothing that goes by the name of a manifest. -/
def Harmless (front : String) : Act → Prop
  | .put_blob _ _ | .post _ _ (.FinalizeCacheEntryUpload _ _ _) | .spawn _ => False
  | .send item => startsWith item.1 front = false
  | _ => True

theorem Harmless.files {action : Act} (harmless : Harmless front action)
    (fit : String → Bytes → Prop) (service : Service) : Files fit base service action := by
  cases action with
  | put_blob url data => exact harmless.elim
  | post url token request =>
    cases request with
    | FinalizeCacheEntryUpload key version size => exact harmless.elim
    | _ => trivial
  | _ => trivial

theorem Reading.harmless {action : Act} (reading : Reading action) : Harmless front action := by
  cases action with
  | post url token request =>
    cases request with
    | GetCacheEntryDownloadURL key version restore_keys => trivial
    | _ => exact reading.elim
  | put_blob url data => exact reading.elim
  | send item => exact reading.elim
  | spawn item => exact reading.elim
  | _ => trivial

theorem Forwarding.harmless {action : Act} (forwarding : Forwarding action) :
    Harmless front action := by
  cases action with
  | post url token request => exact forwarding.elim
  | put_blob url data => exact forwarding.elim
  | send item => exact forwarding.elim
  | spawn item => exact forwarding.elim
  | _ => trivial

theorem QueuesAs.harmless {key : String} {action : Act} (apart : startsWith key front = false)
    (queues : QueuesAs key action) : Harmless front action := by
  cases action with
  | send item =>
    obtain rfl : item.1 = key := queues
    exact apart
  | post url token request => exact False.elim queues
  | put_blob url data => exact False.elim queues
  | spawn item => exact False.elim queues
  | _ => trivial

variable (grants : Grants crates kept allowed permitted)

include grants

theorem Carries.acts {before after : World} (action : Act) {answer : Answer action}
    (carries : Carries front kept allowed base before)
    (files : Files (Fit front kept allowed) base before.service action)
    (passing : SendsPassing front allowed action)
    (acted : World.Acts permitted id action before answer after) :
    Carries front kept allowed base after :=
  ⟨carries.1.acts (fun rule => grants.honest rule) files acted,
    carries.2.step passing acted.choose_spec.2⟩

theorem Carries.harmless {before after : World} (action : Act) {answer : Answer action}
    (carries : Carries front kept allowed base before) (harmless : Harmless front action)
    (acted : World.Acts permitted id action before answer after) :
    Carries front kept allowed base after := by
  refine carries.acts grants action (harmless.files _ _) ?_ acted
  cases action with
  | send item => exact ⟨harmless, grants.sends acted.choose_spec.1⟩
  | spawn item => exact harmless.elim
  | _ => trivial

theorem carried_of_within {Result : Type} {program : Task Result}
    (within : program.Within (Harmless front)) (world : World) :
    Carried permitted front kept allowed base id program world :=
  Keeps.of_within within (fun action _ _ _ harmless carries acted =>
    carries.harmless grants action harmless acted) fun _ _ _ => trivial

/-- A program of one action. -/
theorem carried_act (action : Act) (harmless : Harmless front action) (world : World) :
    Carried permitted front kept allowed base id (act action) world :=
  carried_of_within grants (show (.perform action .finish : Task (Answer action)).Within
    (Harmless front) from ⟨harmless, fun _ => trivial⟩) world

omit grants in
theorem Asking.passing {action : Act} (asking : Asking action) :
    SendsPassing front allowed action := by
  cases action with
  | send item => exact asking.elim
  | spawn item => exact asking.elim
  | _ => trivial

/-- Putting what is fit. -/
theorem put_carried (gha : GhaCache) {key : String} {data : Bytes}
    (fit : Fit front kept allowed key data) (world : World) :
    Carried permitted front kept allowed base id (gha.put crates key data) world := by
  refine (put_filed (fun rule => grants.honest rule) ?_ gha fit).weaken fun _ _ _ _ => trivial
  exact fun asking sending acted => sending.step asking.passing acted.choose_spec.2

theorem put_scoped_carried (gha : GhaCache) {run key_prefix scope kind : String} {body : Bytes}
    (fit : ∀ stamp, Fit front kept allowed
      (GhaCache.scoped_key key_prefix scope kind stamp run) body)
    (world : World) :
    Carried permitted front kept allowed base id
      (gha.put_scoped crates run key_prefix scope kind body) world := by
  refine Keeps.act fun now stamp after carries _ acted => ?_
  exact ⟨carries.harmless grants .now trivial acted,
    fun _ => put_carried grants gha (fit stamp) after⟩

variable {store : Store}
variable (name : front = scoped_prefix store.config.key_prefix store.config.scope "index")
variable (visible : ∀ key, kept key → IsLine key.toList ∧ isBlank key = false)
variable (filesScoped : ∀ kind stamp body, kind = "index" ∨ kind = "pack" → allowed
  (GhaCache.scoped_key store.config.key_prefix store.config.scope kind stamp store.run, body))

include visible filesScoped

/-- The manifest that a job writes lists the keys. -/
theorem save_index_carried (world : World) :
    Carried permitted front kept allowed base id (store.save_index crates) world := by
  unfold Store.save_index
  split
  · exact fun _ _ _ => trivial
  · rename_i gha _
    refine Keeps.act fun now dirty after carries _ acted => ?_
    refine ⟨carries.harmless grants (.load .index_dirty) trivial acted, fun _ => ?_⟩
    split
    · refine Keeps.act fun now keys after carries _ acted => ?_
      have next := carries.harmless grants (.iter .index) trivial acted
      refine ⟨next, fun _ => (put_scoped_carried grants gha (fun stamp =>
        ⟨fun _ key keep => ?_, filesScoped _ _ _ (Or.inl rfl)⟩) after).bind Grows.isRely next
          fun stored _ _ _ => ?_⟩
      · refine mem_manifestKeys (visible key keep).1 (visible key keep).2 (List.mem_toFinset.mp ?_)
        rw [listed_of_iter acted.choose_spec.2]
        exact grants.lists acted.choose_spec.1 key keep
      · cases stored <;> exact fun _ _ _ => trivial
    · exact fun _ _ _ => trivial

include name

omit visible in
/-- A pack goes by another name. -/
theorem save_pack_carried (world : World) :
    Carried permitted front kept allowed base id (store.save_pack crates) world := by
  have gathers : ∀ keys, (store.gather keys).Within (Harmless front) := by
    intro keys
    induction keys with
    | nil => exact trivial
    | cons key rest inductionHypothesis =>
      unfold Store.gather
      refine .act trivial fun body => ?_
      cases body with
      | none => exact inductionHypothesis
      | some body => exact inductionHypothesis.bind fun _ => trivial
  unfold Store.save_pack
  split
  · exact fun _ _ _ => trivial
  · rename_i gha _
    refine Keeps.act fun now dirty after carries _ acted => ?_
    have next := carries.harmless grants (.load .pack_dirty) trivial acted
    refine ⟨next, fun _ => ?_⟩
    split
    · refine Keeps.act fun now keys after carries _ acted => ?_
      have next := carries.harmless grants (.iter .packed) trivial acted
      refine ⟨next, fun _ => (carried_of_within grants (gathers _) after).bind Grows.isRely next
        fun objects now carries _ => ?_⟩
      dsimp only
      split
      · exact fun _ _ _ => trivial
      · refine (put_scoped_carried grants gha (fun stamp =>
          ⟨fun starts => ?_, filesScoped _ _ _ (Or.inr rfl)⟩) now).bind Grows.isRely carries
          fun stored later carries _ => ?_
        · rw [name, other_kind_not_found (by decide) (by decide) (by decide)] at starts
          cases starts
        · cases stored with
          | ok _ => exact carried_act grants (.record_packed _ _) trivial later
          | error _ => exact fun _ _ _ => trivial
    · exact fun _ _ _ => trivial

theorem flush_carried (world : World) :
    Carried permitted front kept allowed base id (store.flush crates) world := by
  have awaits : ∀ handle, (Store.await_uploader handle).Within (Harmless front) := by
    intro handle
    unfold Store.await_uploader
    split
    · exact ⟨trivial, fun _ => trivial⟩
    · exact trivial
  unfold Store.flush
  refine Keeps.act fun now _ after carries _ acted => ?_
  refine ⟨carries.harmless grants .take_sender trivial acted, fun _ => ?_⟩
  refine Keeps.act fun now handle after carries _ acted => ?_
  have next := carries.harmless grants .take_uploader trivial acted
  refine ⟨next, fun _ => ?_⟩
  refine (carried_of_within grants (awaits handle) after).bind Grows.isRely next
    fun _ now carries _ => ?_
  refine (save_index_carried grants visible filesScoped now).bind Grows.isRely carries
    fun _ now _ _ => ?_
  exact save_pack_carried grants name filesScoped now

omit name visible filesScoped

theorem upload_round_carried (world : World) :
    Carried permitted front kept allowed base id store.upload_round world := by
  unfold Store.upload_round
  refine Keeps.act fun now item after carries _ acted => ?_
  have next := carries.harmless grants .recv trivial acted
  refine ⟨next, fun _ => ?_⟩
  cases item with
  | none =>
    exact (carried_act grants .join_uploads trivial after).bind Grows.isRely next
      fun _ _ _ _ _ _ _ => trivial
  | some item =>
    have passing := carries.2.queue item (mem_queue_of_recv acted.choose_spec.2)
    dsimp only
    split
    · exact fun _ _ _ => trivial
    · refine Keeps.act fun now _ after carries _ acted => ?_
      refine ⟨carries.harmless grants .acquire trivial acted, fun _ => ?_⟩
      refine Keeps.act fun now _ after carries _ acted => ?_
      exact ⟨carries.acts grants (.spawn item) trivial passing acted, fun _ _ _ _ => trivial⟩

theorem upload_carried (gha : GhaCache) {key : String} {bytes : Bytes}
    (passing : Passes front allowed (key, bytes)) {world : World}
    (carries : Carries front kept allowed base world) :
    Carried permitted front kept allowed base id (Store.upload crates gha key bytes) world := by
  have lists : (do
      if ← act (.insert .index key) then
        act (.store .index_dirty)
        act .drop_permit
      else act .drop_permit : Task Unit).Within (Harmless front) := by
    refine .act trivial fun added => ?_
    split
    · exact .act trivial fun _ => ⟨trivial, fun _ => trivial⟩
    · exact ⟨trivial, fun _ => trivial⟩
  have retains : Retains front kept key bytes := by
    intro starts
    rw [passing.1] at starts
    cases starts
  unfold Store.upload
  refine (put_carried grants gha ⟨retains, passing.2⟩ world).bind Grows.isRely carries
    fun stored now _ _ => carried_of_within grants ?_ now
  rcases stored with err | (_ | _)
  · exact .act trivial fun _ => ⟨trivial, fun _ => trivial⟩
  · exact lists
  · exact .act trivial fun _ => lists

end Programs

/-! ### One job and the next -/

/-- Nothing is put under the name of a manifest. -/
def Arrival.Apart (front : String) : Arrival → Prop
  | .put key _ => startsWith key front = false
  | _ => True

/-- No key of a URL is the name of a manifest or a pack. -/
theorem policy_key_apart {crates : Crates} {policy : Policy} {front kind : String} (scope : String)
    (kinds : kind = "index" ∨ kind = "pack")
    (name : front = scoped_prefix policy.key_prefix scope kind) (url : Url) :
    startsWith (policy.key crates url) front = false := by
  let ledger : Ledger crates := ⟨fun _ => False, policy.key_prefix⟩
  have isKey : ledger.IsKey (policy.key crates url) := ⟨url, rfl⟩
  refine Bool.eq_false_iff.mpr fun starts => ?_
  have begins := @Ledger.startsWith_scoped _ ledger _ scope kind (name ▸ starts)
  rcases kinds with rfl | rfl <;>
    (rw [isKey.not_startsWith (by decide)] at begins; cases begins)

section Jobs

variable {crates : Crates} {proxy : Proxy} {front : String} {kept : String → Prop}
variable {allowed : Item → Prop} {permitted : TaskId → World → Act → Choice → Prop} {base : Service}

variable (grants : Grants crates kept allowed permitted)
variable (visible : ∀ key, kept key → IsLine key.toList ∧ isBlank key = false)
variable (filesScoped : ∀ kind stamp body, kind = "index" ∨ kind = "pack" → allowed
  (GhaCache.scoped_key proxy.store.config.key_prefix proxy.store.config.scope kind stamp
    proxy.store.run, body))
variable (name : front =
  scoped_prefix proxy.store.config.key_prefix proxy.store.config.scope "index")
variable (same : proxy.policy.key_prefix = proxy.store.config.key_prefix)

include grants visible filesScoped name same

theorem call_carried {number : Nat} {arrival : Arrival} {program : Task Value}
    (apart : arrival.Apart front) (called : Job.call crates proxy arrival = some program)
    {world : World} (carries : Carries front kept allowed base world) :
    Carried permitted front kept allowed base (.call number) program world := by
  have wraps : ∀ {Result : Type} {task : Task Result} {wrap : Result → Value},
      Carried permitted front kept allowed base (.call number) task world →
      Carried permitted front kept allowed base (.call number) (yields task wrap) world :=
    fun carried => carried.bind Grows.isRely carries fun _ _ _ _ _ _ _ => trivial
  cases arrival with
  | load_index =>
    cases called
    exact wraps (carried_of_within grants
      ((load_index_reading crates _).mono fun _ => Reading.harmless) _)
  | load_pack =>
    cases called
    exact wraps (carried_of_within grants
      ((load_pack_reading crates _).mono fun _ => Reading.harmless) _)
  | get key =>
    cases called
    exact wraps (carried_of_within grants
      ((get_reading crates _ _).mono fun _ => Reading.harmless) _)
  | put key bytes =>
    cases called
    exact wraps (carried_of_within grants
      ((store_put_queues _ _ _).mono fun _ => QueuesAs.harmless apart) _)
  | flush =>
    cases called
    exact wraps (flush_carried grants name visible filesScoped _)
  | request request tunnel_authority =>
    cases called
    refine wraps (carried_of_within grants (dispatch_within_of crates proxy request tunnel_authority
      (fun _ => Forwarding.harmless) (fun _ _ _ _ => trivial) (fun _ => Reading.harmless)
      fun url _ => QueuesAs.harmless
        (policy_key_apart proxy.store.config.scope (Or.inl rfl) ?_ url)) _)
    rw [name, same]
  | tunnel => cases called
  | upload => cases called

omit grants visible filesScoped name same in
/-- A fetch leaves the entries as they are. -/
theorem entries_of_fetches {id : TaskId} {action : Act} {before after : World}
    {answer : Answer action} (fetches : Fetches action)
    (acted : World.Acts (Honestly crates) id action before answer after) :
    after.service.entries = before.service.entries := by
  obtain ⟨choice, honest, result⟩ := acted
  rcases exec_service result with unchanged | ⟨url, token, request, rfl⟩ | ⟨url, data, rfl⟩
  · rw [unchanged]
  · cases request with
    | GetCacheEntryDownloadURL key version restore_keys =>
      cases choice with
      | replied reply effect =>
        cases result
        rcases locating_of_honest honest with ⟨rfl, _⟩ | ⟨signed, item, rfl, _⟩ <;> rfl
      | _ => cases result
    | _ => exact fetches.elim
  · exact fetches.elim

/-- The rely-guarantee rule applies to a job that carries its keys on. -/
theorem guards_carried :
    Guards (Job.machine crates proxy) (Permits permitted fun _ _ arrival => arrival.Apart front)
      (World.Acts permitted) (Carries front kept allowed base) (fun _ => Grows)
      (fun _ _ _ => True) where
  isRely := Grows.isRely
  acted _ _ choice _ _ _ _ rule _ task result := ⟨choice, rule _ _ task, result⟩
  looped := by
    intro id value program state carries _ round
    cases id with
    | uploader =>
      cases value with
      | round goes =>
        cases goes <;> cases round
        exact (upload_round_carried grants state).bind Grows.isRely carries
          fun _ _ _ _ _ _ _ => trivial
      | _ => cases round
    | _ => cases round
  arrived := by
    intro config id arrival program after apart guarded result
    have carries := guarded.shared
    rcases Job.accept_cases crates proxy result with ⟨number, rfl, called, rfl⟩ |
      ⟨number, host, port, rfl, opened, rfl, rfl⟩ |
      ⟨number, key, bytes, gha, rfl, waiting, client, rfl, rfl⟩
    · exact ⟨carries, fun _ _ => .rfl,
        call_carried grants visible filesScoped name same apart called carries⟩
    · refine ⟨carries, fun _ _ => .rfl, carried_of_within grants (yields_within ?_ _) _⟩
      exact (serve_tunnel_passes proxy host port).mono fun _ passes => passes.1.harmless
    · refine ⟨carries, fun _ _ => .rfl, ?_⟩
      exact (upload_carried grants gha (carries.2.spawned _ _ (lookup_mem waiting)) carries).bind
        Grows.isRely carries fun _ _ _ _ _ _ _ => trivial

/-- What a job that carries its keys on has filed, wherever it is cut off. -/
theorem Carries.reaches {world : World} (carries : Carries front kept allowed base world)
    {config : Config Act Answer TaskId World Value}
    (reached : (Job.machine crates proxy).Reaches
      (Permits permitted fun _ _ arrival => arrival.Apart front) (Job.idle proxy world) config) :
    Filed (Fit front kept allowed) base config.shared.service := by
  have guarded : Guarded (World.Acts permitted) (Carries front kept allowed base)
      (fun _ => Grows) (fun _ _ _ => True) (Job.idle proxy world) := by
    refine ⟨carries, fun id program task => ?_⟩
    cases id with
    | uploader =>
      cases task
      exact (upload_round_carried grants world).bind Grows.isRely carries
        fun _ _ _ _ _ _ _ => trivial
    | _ => cases task
  exact (guarded.reaches (guards_carried grants visible filesScoped name same) reached).shared.1

omit grants visible filesScoped same in
/-- Reading the manifest, when it brings anything, brings the keys of the newest one, and files
nothing. -/
theorem read_of_loads {before : Service} (orderly : before.Orderly) {main : TaskId}
    {built : List Built} {read : Finset String} {world : World}
    (loaded : LoadsIndex crates proxy.store (Honestly crates) main read
      (Job.fresh proxy before built) world) :
    Carries front kept allowed before world ∧
      (read.Nonempty → read = (before.listed front).toFinset) := by
  have fresh : Sending front allowed (Job.fresh proxy before built) :=
    ⟨fun _ member => absurd member List.not_mem_nil,
      fun _ _ member => absurd member List.not_mem_nil⟩
  unfold LoadsIndex at loaded
  split at loaded
  · obtain ⟨rfl, rfl⟩ := loaded
    exact ⟨⟨filed_self orderly, fresh⟩, fun nonempty => absurd nonempty Finset.not_nonempty_empty⟩
  · rename_i gha client
    obtain ⟨fetched, middle, run, rfl, rfl⟩ := loaded
    let held := fun now : World => Carries front kept allowed before now ∧
      now.service.entries = before.entries
    have start : held (Job.fresh proxy before built) := ⟨⟨filed_self orderly, fresh⟩, rfl⟩
    have keeps : ∀ {action now answer after}, Fetches action → held now →
        World.Acts (Honestly crates) main action now answer after → held after := by
      intro action now answer after fetches ⟨⟨filed, sending⟩, unchanged⟩ acted
      refine ⟨⟨filed.acts (fun honest => honest) (fetches.files _ _ _) acted, ?_⟩, ?_⟩
      · refine sending.step ?_ acted.choose_spec.2
        cases action with
        | send item => exact fetches.elim
        | spawn item => exact fetches.elim
        | _ => trivial
      · rw [entries_of_fetches fetches acted, unchanged]
    obtain ⟨⟨⟨filed, sending⟩, _⟩, finds⟩ := Safe.of_runs Grows.isRely start
      (fetch_finds (fun honest => honest) keeps gha) run
    refine ⟨⟨filed, sending.queue, sending.spawned⟩, fun nonempty => ?_⟩
    rcases fetched with err | (_ | raw)
    · exact absurd nonempty Finset.not_nonempty_empty
    · exact absurd nonempty Finset.not_nonempty_empty
    · obtain ⟨_, title, between, ⟨_, unchanged⟩, _, _, found⟩ := finds raw rfl
      have newest : before.newest front = some (title, raw) := by
        rw [name, ← found, Service.find, Service.newest, Service.newest, unchanged]
      rw [Service.listed, newest]
      rfl

end Jobs

/-- A job of the scope on the service as it was before: it reads the manifest, with success where
there is one that lists anything, and leaves the service as it is when the job is cut off. -/
def Continues (crates : Crates) ( key_prefix scope : String) (before after : Service) : Prop :=
  ∃ (proxy : Proxy) (main : TaskId) (built : List Built) (read : Finset String) (world : World)
    (config : Config Act Answer TaskId World Value),
    (proxy.policy.key_prefix = key_prefix ∧ proxy.store.config.key_prefix = key_prefix ∧
      proxy.store.config.scope = scope) ∧
    LoadsIndex crates proxy.store (Honestly crates) main read (Job.fresh proxy before built) world ∧
    (before.listed ( scoped_prefix key_prefix scope "index") = [] ∨ read.Nonempty) ∧
    (Job.machine crates proxy).Reaches (Permits (Honestly crates) fun _ _ arrival =>
      arrival.Apart <| scoped_prefix key_prefix scope "index") (Job.idle proxy world) config ∧
    after = config.shared.service

/-- What one job leaves behind lists every line that was listed before. -/
theorem Continues.listed {crates : Crates} {scope key_prefix : String} {before after : Service}
    (continues : Continues crates key_prefix scope before after) (orderly : before.Orderly) :
    after.Orderly ∧ before.entries <+: after.entries ∧
      ∀ key, IsLine key.toList → key ∈ before.listed ( scoped_prefix key_prefix scope "index") →
        key ∈ after.listed ( scoped_prefix key_prefix scope "index") := by
  obtain ⟨proxy, main, built, read, world, config, ⟨policy, rfl, rfl⟩, loaded, success, reached,
    rfl⟩ := continues
  obtain ⟨front, name⟩ : ∃ front, front =
    scoped_prefix proxy.store.config.key_prefix proxy.store.config.scope "index" := ⟨_, rfl⟩
  rw [← name] at success reached ⊢
  let kept := fun key : String => IsLine key.toList ∧ key ∈ before.listed front
  have visible : ∀ key, kept key → IsLine key.toList ∧ isBlank key = false := by
    intro key ⟨isLine, listed⟩
    refine ⟨isLine, ?_⟩
    unfold Service.listed at listed
    split at listed
    · simpa using (List.mem_filter.mp listed).2
    · cases listed
  obtain ⟨carries, brings⟩ :=
    @read_of_loads _ _ _ kept (fun _ => True) name _ orderly _ _ _ _ loaded
  have held : ∀ key, kept key → key ∈ world.sets .index := by
    intro key ⟨_, listed⟩
    rcases success with nothing | nonempty
    · rw [nothing] at listed
      cases listed
    · rw [index_of_loads loaded, brings nonempty]
      exact List.mem_toFinset.mpr listed
  -- An index only grows, so it holds the keys whenever a manifest is made from it.
  let permitted := fun (id : TaskId) (now : World) (action : Act) (choice : Choice) =>
    Honestly crates id now action choice ∧ ∀ key, kept key → key ∈ now.sets .index
  have grants : Grants crates kept (fun _ => True) permitted :=
    ⟨fun rule => rule.1, fun rule => rule.2, fun _ => trivial⟩
  have resumed := (reached.strengthen (fun now => ∀ key, kept key → key ∈ now.shared.sets .index)
    (Permits permitted fun _ _ arrival => arrival.Apart front)
    (fun _ _ _ _ stepped kept key keep => (stepped_grows stepped).sets .index (kept key keep))
    (fun now event kept rule => ?_) held).1
  · have filed := carries.reaches grants visible (fun _ _ _ _ => trivial) name policy resumed
    exact ⟨filed.orderly, filed.entries, fun key isLine listed =>
      filed.listed (fun fit => fit.1) (fun _ held => held.2) key ⟨isLine, listed⟩⟩
  · cases event with
    | run id choice => exact fun action next task => ⟨rule action next task, kept⟩
    | arrive id arrival => exact rule

/-- What a sequence of jobs leaves behind keeps the entries and the lines that were there before. -/
theorem Continues.lasts {crates : Crates} {scope key_prefix : String} {before after : Service}
    (jobs : Relation.ReflTransGen (Continues crates key_prefix scope) before after)
    (orderly : before.Orderly) : after.Orderly ∧ before.entries <+: after.entries ∧
      ∀ key, IsLine key.toList → key ∈ before.listed ( scoped_prefix key_prefix scope "index") →
        key ∈ after.listed ( scoped_prefix key_prefix scope "index") := by
  induction jobs with
  | refl => exact ⟨orderly, List.prefix_rfl, fun _ _ listed => listed⟩
  | tail _ continues inductionHypothesis =>
    obtain ⟨orderly, grown, keeps⟩ := inductionHypothesis
    obtain ⟨later, more, keepsOn⟩ := continues.listed orderly
    exact ⟨later, grown.trans more, fun key isLine listed => keepsOn key isLine
      (keeps key isLine listed)⟩

/-- However many jobs of a scope run one after another, wherever each is cut off and whatever fails
apart from reading the manifest, a key that the manifest lists stays listed. -/
theorem manifest_grows {crates : Crates} {scope key_prefix : String} {before after : Service}
    (jobs : Relation.ReflTransGen (Continues crates key_prefix scope) before after)
    (orderly : before.Orderly) {key : String} (isLine : IsLine key.toList)
    (listed : key ∈ before.listed ( scoped_prefix key_prefix scope "index")) :
    key ∈ after.listed ( scoped_prefix key_prefix scope "index") :=
  (Continues.lasts jobs orderly).2.2 key isLine listed

/-! ### Two jobs -/

/-- The next step is honest, and what arrives is put under another name. -/
def honestly (crates : Crates) (front : String) (config : Config Act Answer TaskId World Value) :
    Event TaskId Choice Arrival → Bool
  | .run id choice =>
      match config.tasks id with
      | some (.perform action _) => honest crates config.shared action choice
      | _ => true
  | .arrive _ (.put key _) => !startsWith key front
  | .arrive _ _ => true

theorem permits_of_honestly {crates : Crates} {front : String}
    (config : Config Act Answer TaskId World Value) (event : Event TaskId Choice Arrival)
    (checked : honestly crates front config event = true) :
    Permits (Honestly crates) (fun _ _ arrival => arrival.Apart front) config event := by
  cases event with
  | run id choice =>
    intro action next task
    rw [honestly, task] at checked
    exact checked
  | arrive id arrival =>
    cases arrival with
    | put key bytes =>
      have apart : startsWith key front = false := by simpa [honestly] using checked
      exact apart
    | _ => trivial

/-- The service of a job that stored one object. -/
def storedOne : Service :=
  { Service.empty with entries := [("t-0", [0x78]), ("t-index-job-0-0", Store.manifest ["t-0"])] }

/-- The texts of a service that also locates entries. -/
def locatingSamples : Samples :=
  { reservingSamples with downloads :=
    [(locatedText "https://blob.example/index", ⟨true, "https://blob.example/index"⟩)] }

/-- Another object is put and uploaded, and the manifest is written again. -/
def addsRuns : List (Event TaskId Choice Arrival) :=
  putRuns 0 "t-1" ++ spawnRuns ++ [.arrive (.upload 0) .upload, .run (.upload 0) .quiet,
    .run (.upload 0) (.replied (some ⟨.OK, createdText "https://blob.example/0"⟩)
      (.reserve "https://blob.example/0" "t-1")),
    .run (.upload 0) (.uploaded (some .OK) true),
    .run (.upload 0) (.replied (some ⟨.OK, finalizedText⟩) (.commit ("t-1", [0x78]))),
    .run (.upload 0) .quiet, .run (.upload 0) .quiet, .run (.upload 0) .quiet,
    .run (.upload 0) .quiet] ++ flushRuns ++
  manifestRuns ["t-0", "t-1"] "t-index-job-0-1" "https://blob.example/1"

/-- What a job shares when it has read the manifest. -/
def resumedOne : World :=
  { Job.fresh unpackedProxy storedOne [] with
    service := storedOne.answer
      (.GetCacheEntryDownloadURL "t-index-job-" "version" ["t-index-job-"])
      (some ⟨.OK, locatedText "https://blob.example/index"⟩)
      (.offer "https://blob.example/index" ("t-index-job-0-0", Store.manifest ["t-0"])) }

set_option maxRecDepth 8000 in
theorem loads_storedOne : LoadsIndex (.ofSamples locatingSamples) unpackedProxy.store
    (Honestly (.ofSamples locatingSamples)) .uploader {"t-0"}
    (Job.fresh unpackedProxy storedOne []) (resumedOne.addKeys .index {"t-0"}) := by
  have located : ∀ url token, honest (.ofSamples locatingSamples)
      (Job.fresh unpackedProxy storedOne [])
      (.post url token (.GetCacheEntryDownloadURL "t-index-job-" "version" ["t-index-job-"]))
      (.replied (some ⟨.OK, locatedText "https://blob.example/index"⟩)
        (.offer "https://blob.example/index" ("t-index-job-0-0", Store.manifest ["t-0"]))) = true :=
    fun _ _ => rfl
  have downloaded : honest (.ofSamples locatingSamples) resumedOne
      (.get_blob "https://blob.example/index")
      (.downloaded (some (.OK, some (Store.manifest ["t-0"])))) = true := rfl
  exact ⟨.ok (some (Store.manifest ["t-0"])), resumedOne, ⟨false, _, ⟨.quiet, rfl, rfl⟩,
    some ⟨.OK, locatedText "https://blob.example/index"⟩, resumedOne, ⟨_, located _ _, rfl⟩,
    some (.OK, some (Store.manifest ["t-0"])), resumedOne, ⟨_, downloaded, rfl⟩, rfl, rfl⟩,
    rfl, rfl⟩
set_option maxRecDepth 8000 in
theorem manifest_grows_added : ∃ after,
    Continues (.ofSamples locatingSamples) "t" "job" storedOne after ∧
      after.keys = ["t-0", "t-index-job-0-0", "t-1", "t-index-job-0-1"] ∧
      "t-0" ∈ after.listed "t-index-job-" := by
  obtain ⟨ran, honest⟩ := Machine.Permitting.of_runChecked permits_of_honestly
    (show (Job.machine (.ofSamples locatingSamples) unpackedProxy).runChecked
      (honestly (.ofSamples locatingSamples) "t-index-job-")
      (Job.idle unpackedProxy (resumedOne.addKeys .index {"t-0"})) addsRuns = some _ from rfl)
  have continues : Continues (.ofSamples locatingSamples) "t" "job" storedOne _ :=
    ⟨unpackedProxy, .uploader, [], {"t-0"}, _, _, ⟨rfl, rfl, rfl⟩, loads_storedOne,
      Or.inr (Finset.singleton_nonempty _), honest.reaches ran, rfl⟩
  refine ⟨_, continues, rfl, ?_⟩
  exact manifest_grows (.single continues) ⟨by decide +kernel, by decide +kernel⟩
    ⟨by decide, by decide, by decide⟩ (by decide +kernel)

end Cicache
