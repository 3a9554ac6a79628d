/-
This file says what an honest cache service does, and what its clients may then count on. An honest
service hands out an upload URL that nothing was stored at, commits under a key what arrived at the
URL it last reserved for that key, never commits a key twice, and offers what it holds. It may fail
at any time. Versions play no part, since all jobs of the program use the same one.

Against such a service, whatever is filed under a key has passed through `put`. So if every object a
job puts is fit for its key, then so is every entry that the service takes in.
-/

import Cicache.Growth

namespace Cicache

open Text Interleaving

/-! ### An honest service -/

namespace Service

/-- The keys of the entries. -/
def keys (service : Service) : List String := service.entries.map Prod.fst

/-- The key has an entry that was finalized. -/
def Holds (service : Service) (key : String) : Prop := key ∈ service.keys

instance (service : Service) (key : String) : Decidable (service.Holds key) :=
  inferInstanceAs (Decidable (key ∈ service.keys))

/-- Nothing was reserved or stored at the URL. -/
def Unused (service : Service) (url : String) : Prop :=
  url ∉ service.reserved.map Prod.fst ∧ url ∉ service.blobs.map Prod.fst

instance (service : Service) (url : String) : Decidable (service.Unused url) :=
  inferInstanceAs (Decidable (_ ∧ _))

/-- The URL that was last reserved for the key. -/
def urlFor (service : Service) (key : String) : Option String :=
  (service.reserved.reverse.find? fun pair => pair.2 = key).map Prod.fst

/-- The newest entry whose key starts so. -/
def newest (service : Service) (front : String) : Option Item :=
  service.entries.reverse.find? fun item => startsWith item.1 front

/-- The entry that a request asks for: the one under the key, or the newest under a restore key. -/
def find (service : Service) (key : String) : List String → Option Item
  | [] => service.entries.find? fun item => item.1 = key
  | front :: _ => service.newest front

/-- The name of an entry that such a request asks for. -/
def Asked (key : String) : List String → String → Prop
  | [], name => name = key
  | front :: _, name => startsWith name front = true

theorem find_eq_some {service : Service} {key : String} {restore_keys : List String} {item : Item}
    (found : service.find key restore_keys = some item) :
    item ∈ service.entries ∧ Asked key restore_keys item.1 := by
  cases restore_keys with
  | nil =>
    have named : item.1 = key := by simpa using List.find?_some found
    exact ⟨List.mem_of_find?_eq_some found, named⟩
  | cons front rest =>
    have starts : startsWith item.1 front = true := by simpa using List.find?_some found
    exact ⟨List.mem_reverse.mp (List.mem_of_find?_eq_some found), starts⟩

/-- What an honest service may answer to a request, and do on it. -/
def honest (crates : Crates) (service : Service) : Request → Option Reply → Effect → Bool
  | .CreateCacheEntry _ _, reply, .nothing => !(GhaCache.creating crates reply).isOk
  | .CreateCacheEntry key _, reply, .reserve url named =>
      decide (named = key ∧ ¬ service.Holds key ∧ service.Unused url) &&
        match GhaCache.creating crates reply with
        | .ok signed => signed = url
        | .error _ => true
  | .FinalizeCacheEntryUpload _ _ _, reply, .nothing =>
      match GhaCache.finalizing crates reply with
      | .ok stored => !stored
      | .error _ => true
  | .FinalizeCacheEntryUpload key _ _, _, .commit (named, data) =>
      decide (named = key ∧ ¬ service.Holds key) &&
        (service.urlFor key).any fun url => (url, data) ∈ service.blobs
  | .GetCacheEntryDownloadURL _ _ _, reply, .nothing => !(GhaCache.locating crates reply).isOk
  | .GetCacheEntryDownloadURL key _ restore_keys, reply, .offer url item =>
      decide (service.find key restore_keys = some item) &&
        match GhaCache.locating crates reply with
        | .ok signed => signed = url
        | .error _ => true
  | _, _, _ => false

/-- The order a service keeps: a URL is reserved once, and a key has one entry. -/
structure Orderly (service : Service) : Prop where
  urls : (service.reserved.map Prod.fst).Nodup
  keys : service.keys.Nodup

theorem orderly_empty : Service.empty.Orderly := ⟨List.nodup_nil, List.nodup_nil⟩

end Service

/-- The environment is free, but for an honest service. -/
def honest (crates : Crates) (world : World) : Act → Choice → Bool
  | .post _ _ request, .replied reply effect => world.service.honest crates request reply effect
  | .get_blob url, .downloaded (some (status, some bytes)) => !status.is_success ||
      world.service.offers.all fun offer => offer.1 ≠ url || offer.2.2 = bytes
  | _, _ => true

/-! ### What an honest answer means -/

section Answers

variable {crates : Crates} {service : Service} {key version : String} {reply : Option Reply}
variable {effect : Effect}

theorem creating_of_honest
    (honest : service.honest crates (.CreateCacheEntry key version) reply effect = true) :
    (effect = .nothing ∧ ∀ signed, GhaCache.creating crates reply ≠ .ok signed) ∨
      ∃ url, effect = .reserve url key ∧ ¬ service.Holds key ∧ service.Unused url ∧
        ∀ signed, GhaCache.creating crates reply = .ok signed → signed = url := by
  cases effect with
  | nothing =>
    refine Or.inl ⟨rfl, fun signed made => ?_⟩
    simp only [Service.honest, made] at honest
    cases honest
  | reserve url named =>
    simp only [Service.honest, Bool.and_eq_true, decide_eq_true_eq] at honest
    obtain ⟨⟨rfl, free, unused⟩, same⟩ := honest
    refine Or.inr ⟨url, rfl, free, unused, fun signed made => ?_⟩
    rw [made] at same
    exact of_decide_eq_true same
  | _ => cases honest

theorem finalizing_of_honest {size : String}
    (honest : service.honest crates (.FinalizeCacheEntryUpload key version size) reply
      effect = true) :
    (effect = .nothing ∧ GhaCache.finalizing crates reply ≠ .ok true) ∨
      ∃ url data, effect = .commit (key, data) ∧ ¬ service.Holds key ∧
        service.urlFor key = some url ∧ (url, data) ∈ service.blobs := by
  cases effect with
  | nothing =>
    refine Or.inl ⟨rfl, fun stored => ?_⟩
    simp only [Service.honest, stored] at honest
    cases honest
  | commit item =>
    obtain ⟨named, data⟩ := item
    simp only [Service.honest, Bool.and_eq_true, decide_eq_true_eq, Option.any_eq_true] at honest
    obtain ⟨⟨rfl, free⟩, url, last, arrived⟩ := honest
    exact Or.inr ⟨url, data, rfl, free, last, arrived⟩
  | _ => cases honest

theorem locating_of_honest {restore_keys : List String}
    (honest : service.honest crates (.GetCacheEntryDownloadURL key version restore_keys) reply
      effect = true) :
    (effect = .nothing ∧ ∀ signed, GhaCache.locating crates reply ≠ .ok signed) ∨
      ∃ url item, effect = .offer url item ∧ service.find key restore_keys = some item ∧
        ∀ signed, GhaCache.locating crates reply = .ok signed → signed = url := by
  cases effect with
  | nothing =>
    refine Or.inl ⟨rfl, fun signed made => ?_⟩
    simp only [Service.honest, made] at honest
    cases honest
  | offer url item =>
    simp only [Service.honest, Bool.and_eq_true, decide_eq_true_eq] at honest
    obtain ⟨found, same⟩ := honest
    refine Or.inr ⟨url, item, rfl, found, fun signed made => ?_⟩
    rw [made] at same
    exact of_decide_eq_true same
  | _ => cases honest

/-- A reservation stores nothing. -/
theorem creating_ne_stored (crates : Crates) (reply : Option Reply) :
    GhaCache.creating crates reply ≠ .error (.ok true) := by
  unfold GhaCache.creating
  cases GhaCache.received crates "CreateCacheEntry" crates.createResponse reply with
  | error err =>
    dsimp only
    split <;> exact nofun
  | ok create =>
    dsimp only
    split <;> exact nofun

/-- A location returns nothing by itself. -/
theorem locating_ne_found (crates : Crates) (reply : Option Reply) {bytes : Bytes} :
    GhaCache.locating crates reply ≠ .error (.ok (some bytes)) := by
  unfold GhaCache.locating
  cases GhaCache.received crates "GetCacheEntryDownloadURL" crates.downloadResponse reply with
  | error err => rintro ⟨⟩
  | ok response =>
    dsimp only
    split <;> rintro ⟨⟩

/-- A download returns the bytes that it was answered with. -/
theorem downloading_eq_ok {crates : Crates} {key : String}
    {answer : Option (StatusCode × Option Bytes)}
    {bytes : Bytes} (same : GhaCache.downloading crates key answer = .ok (some bytes)) :
    ∃ status, answer = some (status, some bytes) ∧ status.is_success = true := by
  unfold GhaCache.downloading at same
  split at same
  · cases same
  · rename_i status body
    split at same
    · cases same
    · rename_i success
      split at same
      · cases same
      · cases same
        exact ⟨status, rfl, Bool.eq_true_of_not_eq_false success⟩

end Answers

/-! ### The service after an honest answer -/

namespace Service

section Order

variable {crates : Crates} {service : Service} {request : Request} {reply : Option Reply}
variable {effect : Effect}

/-- An honest service keeps its order. -/
theorem Orderly.answer (orderly : service.Orderly)
    (honest : service.honest crates request reply effect = true) :
    (service.answer request reply effect).Orderly := by
  cases effect with
  | reserve url named =>
    cases request with
    | CreateCacheEntry key version =>
      rcases creating_of_honest honest with ⟨⟨⟩, _⟩ | ⟨_, ⟨⟩, _, unused, _⟩
      refine ⟨?_, orderly.keys⟩
      change ((service.reserved ++ [(url, named)]).map Prod.fst).Nodup
      rw [List.map_append, List.map_singleton, ← List.concat_eq_append]
      exact orderly.urls.concat unused.1
    | _ => cases honest
  | commit item =>
    cases request with
    | FinalizeCacheEntryUpload key version size =>
      rcases finalizing_of_honest honest with ⟨⟨⟩, _⟩ | ⟨_, data, ⟨⟩, free, _⟩
      refine ⟨orderly.urls, ?_⟩
      change ((service.entries ++ [(key, data)]).map Prod.fst).Nodup
      rw [List.map_append, List.map_singleton, ← List.concat_eq_append]
      exact orderly.keys.concat free
    | _ => cases honest
  | _ => exact ⟨orderly.urls, orderly.keys⟩

/-- A URL stands for one key. -/
theorem Orderly.unique (orderly : service.Orderly) {url key other : String}
    (one : (url, key) ∈ service.reserved) (two : (url, other) ∈ service.reserved) : key = other :=
  (Prod.mk.inj (List.inj_on_of_nodup_map orderly.urls one two rfl)).2

/-- A key stands for one entry. -/
theorem Orderly.same (orderly : service.Orderly) {key : String} {data other : Bytes}
    (one : (key, data) ∈ service.entries) (two : (key, other) ∈ service.entries) : data = other :=
  (Prod.mk.inj (List.inj_on_of_nodup_map orderly.keys one two rfl)).2

/-- The URL last reserved for a key is that of the last pair with the key. -/
theorem find?_of_urlFor {key url : String} (last : service.urlFor key = some url) :
    service.reserved.reverse.find? (fun pair => pair.2 = key) = some (url, key) := by
  obtain ⟨⟨found, named⟩, pair, rfl⟩ := Option.map_eq_some_iff.mp last
  have same : named = key := by simpa using List.find?_some pair
  rw [pair, same]

end Order

end Service

/-! ### What was added since -/

/-- The elements added to a list since it was the other. -/
def since {Element : Type} (base list : List Element) : List Element := list.drop base.length

theorem since_append {Element : Type} {base list : List Element} (grown : base <+: list)
    (more : List Element) : since base (list ++ more) = since base list ++ more :=
  List.drop_append_of_le_length grown.length_le

theorem since_subset {Element : Type} (base list : List Element) : since base list ⊆ list :=
  List.drop_subset _ _

theorem since_self {Element : Type} (base : List Element) : since base base = [] :=
  List.drop_length

theorem append_since {Element : Type} {base list : List Element} (grown : base <+: list) :
    base ++ since base list = list := by
  obtain ⟨more, rfl⟩ := grown
  rw [since, List.drop_left]

/-- Of a list that goes on from another, the last element of a kind is among the new ones, if any
of these is. -/
theorem find?_reverse_since {Element : Type} {base list : List Element} (grown : base <+: list)
    {kind : Element → Bool} {found other : Element} (last : list.reverse.find? kind = some found)
    (member : other ∈ since base list) (is : kind other = true) : found ∈ since base list := by
  rw [← append_since grown, List.reverse_append, List.find?_append] at last
  cases inside : (since base list).reverse.find? kind with
  | none => exact absurd is (List.find?_eq_none.mp inside other (List.mem_reverse.mpr member))
  | some first =>
    rw [inside] at last
    cases last
    exact List.mem_reverse.mp (List.mem_of_find?_eq_some inside)

/-! ### What is filed -/

/-- Everything filed since the service was as in `base` is fit for its key. -/
structure Filed (fit : String → Bytes → Prop) (base service : Service) : Prop where
  reserved : base.reserved <+: service.reserved
  entries : base.entries <+: service.entries
  orderly : service.Orderly
  blobs : ∀ url key data, (url, key) ∈ since base.reserved service.reserved →
    (url, data) ∈ service.blobs → fit key data
  fits : ∀ item ∈ since base.entries service.entries, fit item.1 item.2

/-- Nothing is filed yet. -/
theorem filed_self {fit : String → Bytes → Prop} {base : Service} (orderly : base.Orderly) :
    Filed fit base base where
  reserved := List.prefix_rfl
  entries := List.prefix_rfl
  orderly := orderly
  blobs _ _ _ member := absurd (since_self base.reserved ▸ member) List.not_mem_nil
  fits _ member := absurd (since_self base.entries ▸ member) List.not_mem_nil

/-- What a task that files something keeps to: it stores what is fit, and finalizes what was
reserved. -/
def Files (fit : String → Bytes → Prop) (base service : Service) : Act → Prop
  | .put_blob url data => ∃ key, (url, key) ∈ since base.reserved service.reserved ∧ fit key data
  | .post _ _ (.FinalizeCacheEntryUpload key _ _) =>
      ∃ url, (url, key) ∈ since base.reserved service.reserved
  | _ => True

/-- What was reserved since stays so. -/
theorem since_reserved_later {base : Service} {before after : World} {pair : String × String}
    (grown : base.reserved <+: before.service.reserved) (grows : Grows before after)
    (member : pair ∈ since base.reserved before.service.reserved) :
    pair ∈ since base.reserved after.service.reserved := by
  obtain ⟨more, same⟩ := grows.reserved
  rw [← same, since_append grown]
  exact List.mem_append_left _ member

section Steps

variable {crates : Crates} {fit : String → Bytes → Prop} {base service : Service}
variable {id : TaskId} {action : Act} {choice : Choice} {before after : World}
variable {answer : Answer action}

/-- Only calls and uploads change the service. -/
theorem exec_service (result : World.exec id action choice before = some (answer, after)) :
    after.service = before.service ∨ (∃ url token request, action = .post url token request) ∨
      ∃ url data, action = .put_blob url data := by
  cases action with
  | post url token request => exact Or.inr (Or.inl ⟨url, token, request, rfl⟩)
  | put_blob url data => exact Or.inr (Or.inr ⟨url, data, rfl⟩)
  | _ =>
    refine Or.inl ?_
    simp only [World.exec] at result
    (repeat' split at result) <;> cases result <;> rfl

/-- A call leaves everything filed fit. -/
theorem Filed.post {url token : String} {request : Request} {reply : Option Reply} {effect : Effect}
    (filed : Filed fit base service)
    (honest : service.honest crates request reply effect = true)
    (files : Files fit base service (.post url token request)) :
    Filed fit base (service.answer request reply effect) := by
  have orderly := filed.orderly.answer honest
  cases effect with
  | reserve signed named =>
    cases request with
    | CreateCacheEntry key version =>
      rcases creating_of_honest honest with ⟨⟨⟩, _⟩ | ⟨_, ⟨⟩, _, unused, _⟩
      refine ⟨filed.reserved.trans (List.prefix_append _ _), filed.entries, orderly, ?_, filed.fits⟩
      intro url other data member arrived
      change (url, other) ∈ since base.reserved (service.reserved ++ [(signed, named)]) at member
      rw [since_append filed.reserved, List.mem_append, List.mem_singleton] at member
      rcases member with earlier | now
      · exact filed.blobs url other data earlier arrived
      · cases now
        exact absurd (List.mem_map_of_mem (f := Prod.fst) arrived) unused.2
    | _ => cases honest
  | commit committed =>
    cases request with
    | FinalizeCacheEntryUpload key version size =>
      rcases finalizing_of_honest honest with ⟨⟨⟩, _⟩ | ⟨signed, data, ⟨⟩, _, last, arrived⟩
      refine ⟨filed.reserved, filed.entries.trans (List.prefix_append _ _), orderly,
        filed.blobs, ?_⟩
      intro item member
      change item ∈ since base.entries (service.entries ++ [(key, data)]) at member
      rw [since_append filed.entries, List.mem_append, List.mem_singleton] at member
      rcases member with earlier | rfl
      · exact filed.fits item earlier
      · -- The URL was reserved since: so was another for the key, and this is the last one.
        obtain ⟨other, now⟩ := files
        have recent := find?_reverse_since filed.reserved (Service.find?_of_urlFor last) now
          (decide_eq_true rfl)
        exact filed.blobs signed key data recent arrived
    | _ => cases honest
  | _ => exact ⟨filed.reserved, filed.entries, orderly, filed.blobs, filed.fits⟩

/-- An honest service stays in order while the tasks file what is fit. -/
theorem Filed.step (filed : Filed fit base before.service)
    (allowed : honest crates before action choice = true)
    (files : Files fit base before.service action)
    (result : World.exec id action choice before = some (answer, after)) :
    Filed fit base after.service := by
  rcases exec_service result with same | ⟨url, token, request, rfl⟩ | ⟨url, data, rfl⟩
  · rw [same]
    exact filed
  · cases choice with
    | replied reply effect =>
      cases result
      exact filed.post allowed files
    | _ => cases result
  · cases choice with
    | uploaded status arrived =>
      cases arrived with
      | false =>
        cases result
        exact filed
      | true =>
        cases result
        refine ⟨filed.reserved, filed.entries, ⟨filed.orderly.urls, filed.orderly.keys⟩, ?_,
          filed.fits⟩
        intro other key contents reserved stored
        rcases List.mem_append.mp stored with earlier | now
        · exact filed.blobs other key contents reserved earlier
        · cases List.mem_singleton.mp now
          obtain ⟨named, reserved', fits⟩ := files
          obtain rfl := filed.orderly.unique (since_subset _ _ reserved')
            (since_subset _ _ reserved)
          exact fits
    | _ => cases result

end Steps

/-! ### Filing an object -/

section Rule

variable {crates : Crates} {permitted : TaskId → World → Act → Choice → Prop}
variable {fit : String → Bytes → Prop} {base : Service} {id : TaskId}
variable {extra : World → Prop}

/-- An action that files nothing keeps what is filed fit. -/
theorem Filed.acts (isHonest : ∀ {world action choice}, permitted id world action choice →
      honest crates world action choice = true) {action : Act} {before after : World}
    {answer : Answer action} (filed : Filed fit base before.service)
    (files : Files fit base before.service action)
    (acted : World.Acts permitted id action before answer after) :
    Filed fit base after.service := by
  obtain ⟨choice, allowed, result⟩ := acted
  exact filed.step (isHonest allowed) files result

/-- Putting what is fit keeps everything filed fit, and what was stored is there. -/
theorem put_filed (isHonest : ∀ {world action choice}, permitted id world action choice →
      honest crates world action choice = true)
    (keeps : ∀ {action now answer after}, Asking action → extra now →
      World.Acts permitted id action now answer after → extra after)
    (gha : GhaCache) {key : String} {data : Bytes} {world : World} (fits : fit key data) :
    Keeps permitted (fun now => Filed fit base now.service ∧ extra now) id
      (fun value now => value = .ok true →
        ∃ contents, (key, contents) ∈ since base.entries now.service.entries)
      (gha.put crates key data) world := by
  have quiet : ∀ (action : Act) {now after : World} {answer : Answer action}, Asking action →
      Files fit base now.service action → (Filed fit base now.service ∧ extra now) →
      World.Acts permitted id action now answer after →
      Filed fit base after.service ∧ extra after :=
    fun action _ _ _ asking files kept acted =>
      ⟨kept.1.acts isHonest files acted, keeps asking kept.2 acted⟩
  refine @Keeps.put _ _ _ _ _ _ _ _ _
    (fun signed now => (signed, key) ∈ since base.reserved now.service.reserved)
    (fun signed now => (signed, key) ∈ since base.reserved now.service.reserved)
    ?_ ?_ ?_ ?_ ?_ ?_
  · rintro value before after ⟨filed, _⟩ _ grows told stored
    obtain ⟨contents, member⟩ := told stored
    obtain ⟨more, same⟩ := grows.entries
    refine ⟨contents, ?_⟩
    rw [← same, since_append filed.entries]
    exact List.mem_append_left _ member
  · exact fun now answer after kept _ acted =>
      ⟨quiet (.load .exhausted) rfl trivial kept acted, fun _ => nofun⟩
  · intro url token now reply after kept grows acted
    have filed := quiet (.post url token (.CreateCacheEntry key gha.version)) trivial
      trivial kept acted
    refine ⟨filed, ?_⟩
    obtain ⟨choice, allowed, result⟩ := acted
    cases choice with
    | replied told effect =>
      cases result
      split
      · rename_i value made
        intro stored
        subst stored
        exact absurd made (creating_ne_stored crates reply)
      · rename_i signed made
        rcases creating_of_honest (isHonest allowed) with ⟨_, none⟩ | ⟨granted, rfl, _, _, same⟩
        · exact absurd made (none signed)
        · obtain rfl := same signed made
          intro later _ more
          refine since_reserved_later filed.1.reserved more ?_
          change (signed, key) ∈ since base.reserved (now.service.reserved ++ [(signed, key)])
          rw [since_append kept.1.reserved]
          exact List.mem_append_right _ (List.mem_singleton_self _)
    | _ => cases result
  · intro signed now status after kept known acted
    have filed := quiet (.put_blob signed data) trivial ⟨key, known, fits⟩ kept acted
    refine ⟨filed, ?_⟩
    split
    · exact nofun
    · exact fun later _ grows => since_reserved_later filed.1.reserved grows
        (since_reserved_later kept.1.reserved acted.grows known)
  · intro signed url token now reply after kept known acted
    have filed := quiet (.post url token (.FinalizeCacheEntryUpload key gha.version
      (Nat.repr data.length))) trivial ⟨signed, known⟩ kept acted
    refine ⟨filed, fun stored => ?_⟩
    obtain ⟨choice, allowed, result⟩ := acted
    cases choice with
    | replied told effect =>
      cases result
      rcases finalizing_of_honest (isHonest allowed) with ⟨_, not⟩ | ⟨_, contents, rfl, _, _, _⟩
      · exact absurd stored not
      · refine ⟨contents, ?_⟩
        change (key, contents) ∈ since base.entries (now.service.entries ++ [(key, contents)])
        rw [since_append kept.1.entries]
        exact List.mem_append_right _ (List.mem_singleton_self _)
    | _ => cases result
  · exact fun now after kept acted => quiet (.store .exhausted) rfl trivial kept acted

/-- The actions of a fetch. -/
def Fetches : Act → Prop
  | .load flag | .store flag => flag = .exhausted
  | .post _ _ (.GetCacheEntryDownloadURL _ _ _) | .get_blob _ => True
  | _ => False

/-- Fetching files nothing. -/
theorem Fetches.files {action : Act} (fetches : Fetches action) (fit : String → Bytes → Prop)
    (base service : Service) : Files fit base service action := by
  cases action with
  | post url token request =>
    cases request with
    | FinalizeCacheEntryUpload key version size => exact fetches.elim
    | _ => trivial
  | put_blob url data => exact fetches.elim
  | _ => trivial

/-- What a fetch returns, the service had under the key it was asked for, some time in between. -/
theorem fetch_finds (isHonest : ∀ {world action choice}, permitted id world action choice →
      honest crates world action choice = true) {inv : World → Prop}
    (keeps : ∀ {action now answer after}, Fetches action → inv now →
      World.Acts permitted id action now answer after → inv after)
    (gha : GhaCache) {key : String} {restore_keys : List String} {world : World} :
    Keeps permitted inv id
      (fun value now => ∀ bytes, value = .ok (some bytes) → fits bytes = true ∧
        ∃ name between, inv between ∧ Grows world between ∧ Grows between now ∧
          between.service.find key restore_keys = some (name, bytes))
      (gha.fetch crates key restore_keys) world := by
  refine @Keeps.fetch _ _ _ _ _ _ _ _ _ (fun signed now => ∃ item between, inv between ∧
    Grows world between ∧ Grows between now ∧ between.service.find key restore_keys = some item ∧
      (signed, item) ∈ now.service.offers) ?_ ?_ ?_ ?_ ?_
  · intro value before after _ _ grows told bytes same
    obtain ⟨small, name, between, held, since, until', found⟩ := told bytes same
    exact ⟨small, name, between, held, since, until'.trans grows, found⟩
  · exact fun now answer after kept _ acted =>
      ⟨@keeps (.load .exhausted) _ _ _ rfl kept acted, fun _ _ => nofun⟩
  · intro url token now reply after kept grows acted
    refine ⟨@keeps (.post url token (.GetCacheEntryDownloadURL key gha.version restore_keys)) _ _ _
      trivial kept acted, ?_⟩
    have further := acted.grows
    obtain ⟨choice, allowed, result⟩ := acted
    cases choice with
    | replied told effect =>
      cases result
      split
      · rename_i value made
        intro bytes same
        subst same
        exact absurd made (locating_ne_found crates reply)
      · rename_i signed made
        rcases locating_of_honest (isHonest allowed) with ⟨_, none⟩ | ⟨granted, item, rfl,
          found, same⟩
        · exact absurd made (none signed)
        · obtain rfl := same signed made
          intro later _ more
          refine ⟨item, now, kept, grows, further.trans more, found, more.offers.subset ?_⟩
          exact List.mem_append_right _ (List.mem_singleton_self _)
    | _ => cases result
  · rintro signed now answer after kept ⟨item, between, held, since, until', found, offered⟩ acted
    refine ⟨@keeps (.get_blob signed) _ _ _ trivial kept acted, fun bytes same => ?_⟩
    have further := acted.grows
    obtain ⟨status, downloaded, success⟩ := downloading_eq_ok same
    subst downloaded
    obtain ⟨choice, allowed, result⟩ := acted
    cases choice with
    | downloaded told =>
      simp only [World.exec] at result
      split at result
      · rename_i small
        cases result
        have whole := isHonest allowed
        simp only [honest, success, Bool.not_true, Bool.false_or, List.all_eq_true, Bool.or_eq_true,
          decide_eq_true_eq] at whole
        obtain rfl : item.2 = bytes := (whole _ offered).resolve_left fun other => other rfl
        exact ⟨by simpa using small, item.1, between, held, since, until', found⟩
      · cases result
    | _ => cases result
  · exact fun now after kept acted => @keeps (.store .exhausted) _ _ _ rfl kept acted

end Rule

end Cicache
