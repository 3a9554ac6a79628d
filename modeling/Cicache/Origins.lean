/-
This file settles where a hit comes from. No beginning of an entry decodes, and keys are the same
only for URLs that are; so what a hit replays was built for the URL that was asked for, by this job
or by another one that shares its service, in whatever order they take their steps.
-/

import Cicache.Fetching
import Cicache.Ledger
import Cicache.Rivals

namespace Cicache

open Text Interleaving

/-! ### The programs of the proxy -/

/-- The value of the header that marks a hit. -/
def HIT : HeaderValue := ⟨utf8 "HIT", by decide⟩

/-- The response is marked as a hit. -/
def Response.IsHit (response : Response) : Prop := HIT ∈ response.headers.get_all .X_CICACHE

section Proxy

variable {crates : Crates} (ledger : Ledger crates)

/-- The response replays an entry that was built for this URL, up to its fragment and a default
port. -/
def Replays (url : Url) (response : Response) : Prop :=
  ∃ built other, ledger.builds built ∧ built.url = other.as_str ∧ normalize other = normalize url ∧
    response = replay (built.entry crates)

/-- What a request is answered with, when it is a hit. -/
def Answers (request : ClientRequest) (tunnel_authority : Option String) (response : Response) :
    Prop :=
  response.IsHit → ∃ url, absolute_url crates request.uri tunnel_authority = .ok url ∧
    Replays ledger url response

variable {ledger} {proxy : Proxy} {id : TaskId}

/-- Only the value that was inserted marks a response. -/
theorem not_isHit_of_insert {headers : HeaderMap} {cache : String} {value : HeaderValue}
    (text : HeaderValue.from_str cache = some value) (other : value ≠ HIT) :
    HIT ∉ (insert_cache_header headers cache).get_all .X_CICACHE := by
  simp only [insert_cache_header, text, HeaderMap.get_all_insert, if_pos, List.mem_singleton]
  exact other.symm

theorem stream_response_not_isHit (status : StatusCode) (headers : HeaderMap) (response : Upstream)
    {cache : String} (isMark : cache = "MISS" ∨ cache = "PASS") :
    ¬ (stream_response status headers response cache).IsHit := by
  rcases isMark with rfl | rfl
  · exact @not_isHit_of_insert headers "MISS" ⟨utf8 "MISS", by decide⟩ (by decide) (by decide)
  · exact @not_isHit_of_insert headers "PASS" ⟨utf8 "PASS", by decide⟩ (by decide) (by decide)

theorem build_miss_not_isHit (status : StatusCode) (headers : HeaderMap) (body : Bytes) :
    ¬ (build status headers body "MISS").IsHit :=
  @not_isHit_of_insert _ "MISS" ⟨utf8 "MISS", by decide⟩ (by decide) (by decide)

theorem replay_isHit (entry : Entry crates) : (replay entry).IsHit := by
  have text : HeaderValue.from_str "HIT" = some HIT := by decide
  simp only [Response.IsHit, replay, build, insert_cache_header, text, HeaderMap.get_all_insert,
    if_pos, List.mem_singleton]

theorem text_not_isHit (status : StatusCode) (message : String) :
    ¬ (text status message).IsHit := by
  unfold Response.IsHit text
  simp only [HeaderMap.get_all_cons, HeaderMap.get_all_nil]
  rw [if_neg (by decide)]
  exact List.not_mem_nil

theorem Forwarding.inert {action : Act} (forwarding : Forwarding action) : Inert action := by
  cases action with
  | _ => trivial

/-- A call of `Entry::new` is recorded. -/
theorem builds_of_build_entry {url : String} {status : UInt16} {headers : HeaderMap} {body : Bytes}
    {time : Nat} {before after : World}
    (acted : World.Acts (Attributed ledger) id (.build_entry url status headers body)
      before time after) :
    ledger.builds ⟨url, status, headers, body, time⟩ := by
  obtain ⟨choice, ⟨_, recorded⟩, result⟩ := acted
  cases choice with
  | clock told =>
    cases result
    exact recorded
  | _ => cases result

variable (flat : '/' ∉ ledger.key_prefix.toList)

include flat

theorem forward_upholds (method : Method) (url : Url) (headers : HeaderMap) (body : Bytes)
    (reject : Reject) (world : World) :
    Upholds ledger proxy.store id (fun result => ∀ response, result = .ok response →
      ¬ response.IsHit)
      (Proxy.forward method url headers body reject) world := by
  unfold Proxy.forward
  refine Keeps.act fun now answer after kept _ acted => ?_
  refine ⟨kept.inert flat (.send_request ..) trivial acted, fun _ => ?_⟩
  cases answer with
  | error err => rintro _ _ _ _ ⟨⟩
  | ok response =>
    refine Keeps.act fun now elapsed after kept _ acted => ?_
    refine ⟨kept.inert flat .elapsed trivial acted, fun _ => ?_⟩
    refine Keeps.act fun now _ after kept _ acted => ?_
    refine ⟨kept.inert flat (.record ..) trivial acted, fun _ => ?_⟩
    rintro _ _ _ _ ⟨⟩
    exact stream_response_not_isHit _ _ _ (Or.inr rfl)

variable (files : proxy.policy.key_prefix = ledger.key_prefix)

include files

omit flat in
theorem policy_key (url : Url) : proxy.policy.key crates url = ledger.key url := by
  rw [Policy.key, Ledger.key, files]

/-- What is stored is filed under the key of the URL it was built for. -/
theorem store_response_upholds (url : Url) (status : StatusCode) (headers : HeaderMap)
    (body : Bytes) (world : World) :
    Upholds ledger proxy.store id (fun _ => True)
      (proxy.store_response crates url status headers body (proxy.policy.key crates url))
      world := by
  unfold Proxy.store_response
  split
  · refine Keeps.act fun now stored_at after kept _ acted => ?_
    have next := kept.inert flat (.build_entry ..) trivial acted
    refine ⟨next, fun _ => ?_⟩
    dsimp only
    split
    · rename_i encoded written
      have original : ledger.Original (proxy.policy.key crates url) encoded :=
        ⟨_, url, builds_of_build_entry acted, rfl, policy_key files url, written⟩
      exact (store_put_upholds flat original after).bind Grows.isRely next fun _ _ _ _ _ _ _ =>
        trivial
    · exact fun _ _ _ => trivial
  · exact fun _ _ _ => trivial

theorem fetch_and_store_upholds (method : Method) (url : Url) (client_headers : HeaderMap)
    (world : World) :
    Upholds ledger proxy.store id (fun result => ∀ response, result = .ok response →
      ¬ response.IsHit)
      (proxy.fetch_and_store crates method url client_headers (proxy.policy.key crates url))
      world := by
  unfold Proxy.fetch_and_store
  refine Keeps.act fun now answer after kept _ acted => ?_
  refine ⟨kept.inert flat (.send_request ..) trivial acted, fun _ => ?_⟩
  cases answer with
  | error err => rintro _ _ _ _ ⟨⟩
  | ok response =>
    dsimp only
    split
    · refine Keeps.act fun now elapsed after kept _ acted => ?_
      refine ⟨kept.inert flat .elapsed trivial acted, fun _ => ?_⟩
      refine Keeps.act fun now _ after kept _ acted => ?_
      refine ⟨kept.inert flat (.record ..) trivial acted, fun _ => ?_⟩
      rintro _ _ _ _ ⟨⟩
      exact stream_response_not_isHit _ _ _ (Or.inl rfl)
    · split
      · rintro _ _ _ _ ⟨⟩
      · refine Keeps.act fun now elapsed after kept _ acted => ?_
        have next := kept.inert flat .elapsed trivial acted
        refine ⟨next, fun _ => ?_⟩
        refine (store_response_upholds flat files url _ _ _ after).bind Grows.isRely next
          fun outcome now kept _ => ?_
        refine Keeps.act fun now _ after kept _ acted => ?_
        refine ⟨kept.inert flat (.record ..) trivial acted, fun _ => ?_⟩
        rintro _ _ _ _ ⟨⟩
        exact build_miss_not_isHit _ _ _

variable (lawful : crates.Lawful)

include lawful

/-- What is found under the key of a URL was built for it. -/
theorem lookup_upholds (url : Url) {world : World} (faithful : Faithful ledger proxy.store world) :
    Upholds ledger proxy.store id (fun found => ∀ entry, found = some entry →
        Replays ledger url (replay entry))
      (proxy.lookup crates (proxy.policy.key crates url)) world := by
  have isKey : ledger.IsKey (proxy.policy.key crates url) := ⟨url, policy_key files url⟩
  unfold Proxy.lookup
  refine (get_upholds flat isKey world).bind Grows.isRely faithful fun raw now kept pieces => ?_
  cases raw with
  | none => rintro _ _ _ _ ⟨⟩
  | some raw =>
    dsimp only
    split
    · rename_i entry decoded
      rintro _ _ _ _ ⟨⟩
      obtain ⟨whole, ⟨built, other, builds, named, same, encoded⟩, begins⟩ := pieces raw rfl
      obtain ⟨rfl, -⟩ := Entry.decode_of_prefix lawful encoded begins decoded
      rw [policy_key files url] at same
      exact ⟨built, other, builds, named, (Policy.digest_eq_iff lawful _ _).mp
        ((append_left_inj ..).mp same).symm, rfl⟩
    · rintro _ _ _ _ ⟨⟩

theorem handle_upholds (method : Method) (client_headers : HeaderMap) (url : Url) (world : World) :
    Upholds ledger proxy.store id
      (fun result => ∀ response, result = .ok response → response.IsHit →
        Replays ledger url response)
      (proxy.handle crates method client_headers url) world := by
  have misses : ∀ result : Except String Response,
      (∀ response, result = .ok response → ¬ response.IsHit) →
      ∀ response, result = .ok response → response.IsHit → Replays ledger url response :=
    fun _ none response same hit => absurd hit (none response same)
  unfold Proxy.handle
  refine Keeps.act fun now collected after kept _ acted => ?_
  have next := kept.inert flat .collect trivial acted
  refine ⟨next, fun _ => ?_⟩
  cases collected with
  | error err => rintro _ _ _ _ ⟨⟩
  | ok body =>
    dsimp only
    split
    · exact (forward_upholds flat method url _ _ _ after).weaken fun result _ _ => misses result
    · refine (lookup_upholds flat files lawful url next).bind Grows.isRely next
        fun found now kept replays => ?_
      cases found with
      | some entry =>
        refine Keeps.act fun now _ after kept _ acted => ?_
        refine ⟨kept.inert flat (.record ..) trivial acted, fun _ => ?_⟩
        rintro _ _ _ _ ⟨⟩ _
        exact replays entry rfl
      | none =>
        exact (fetch_and_store_upholds flat files method url _ now).weaken fun result _ _ =>
          misses result

/-- A request that is answered with a hit is answered with what was built for its URL. -/
theorem dispatch_upholds (request : ClientRequest) (tunnel_authority : Option String)
    {world : World}
    (faithful : Faithful ledger proxy.store world) :
    Upholds ledger proxy.store id (Answers ledger request tunnel_authority)
      (proxy.dispatch crates request tunnel_authority) world := by
  have bare : ∀ status headers body, HIT ∉ HeaderMap.get_all headers .X_CICACHE →
      Answers ledger request tunnel_authority ⟨status, headers, body⟩ :=
    fun _ _ _ none hit => absurd hit none
  unfold Proxy.dispatch
  split
  · unfold Proxy.connect
    split
    · exact fun _ _ _ hit => absurd hit (text_not_isHit _ _)
    · refine Keeps.act fun now _ after kept _ acted => ?_
      refine ⟨kept.inert flat (.spawn_tunnel ..) trivial acted, fun _ => ?_⟩
      exact fun _ _ _ => bare _ _ _ List.not_mem_nil
  · split
    · unfold Proxy.control
      split
      · exact fun _ _ _ hit => absurd hit (text_not_isHit _ _)
      · split
        · refine Keeps.act fun now _ after kept _ acted => ?_
          refine ⟨kept.inert flat .summary trivial acted, fun _ _ _ _ => bare _ _ _ ?_⟩
          decide
        · split
          · refine Keeps.act fun now _ after kept _ acted => ?_
            refine ⟨kept.inert flat (.store .shutdown) trivial acted, fun _ => ?_⟩
            exact fun _ _ _ hit => absurd hit (text_not_isHit _ _)
          · exact fun _ _ _ hit => absurd hit (text_not_isHit _ _)
    · unfold Proxy.proxied
      split
      · exact fun _ _ _ hit => absurd hit (text_not_isHit _ _)
      · rename_i url parsed
        refine (handle_upholds flat files lawful request.method request.headers url world).bind
          Grows.isRely faithful fun result now kept told => ?_
        cases result with
        | ok response => exact fun _ _ _ hit => ⟨url, parsed, told response rfl hit⟩
        | error message =>
          refine Keeps.act fun now _ after kept _ acted => ?_
          refine ⟨kept.inert flat (.record ..) trivial acted, fun _ => ?_⟩
          exact fun _ _ _ hit => absurd hit (text_not_isHit _ _)

end Proxy

/-! ### The jobs -/

/-- The proxy makes the calls: nothing is looked up or stored but for a request. -/
def Arrival.Proxied : Arrival → Prop
  | .get _ | .put _ _ => False
  | _ => True

instance (arrival : Arrival) : Decidable arrival.Proxied :=
  match arrival with
  | .get _ | .put _ _ => .isFalse id
  | .load_index | .load_pack | .flush | .request _ _ | .tunnel | .upload => .isTrue trivial

section Jobs

variable {crates : Crates} (ledger : Ledger crates) (arrived : TaskId → Arrival → Prop)

/-- A task that arrived as a request ends with an answer to it. -/
def Concludes (id : TaskId) (value : Value) : Prop :=
  ∀ request tunnel_authority response, arrived id (.request request tunnel_authority) →
    value = .response response → Answers ledger request tunnel_authority response

variable {ledger arrived} {proxy : Proxy} {id : TaskId}

/-- What is no response answers no request. -/
theorem upholds_yields {Result : Type} {program : Task Result} {world : World}
    {post : Result → Prop}
    (faithful : Faithful ledger proxy.store world)
    (upholds : Upholds ledger proxy.store id post program world) {wrap : Result → Value}
    (told : ∀ result, post result → Concludes ledger arrived id (wrap result)) :
    Upholds ledger proxy.store id (Concludes ledger arrived id) (yields program wrap) world :=
  upholds.bind Grows.isRely faithful fun result _ _ holds _ _ _ => told result holds

theorem concludes_of_ne {value : Value} (other : ∀ response, value ≠ .response response) :
    Concludes ledger arrived id value := fun _ _ response _ same => absurd same (other response)

/-- The rely-guarantee rule applies to a job whose calls are the proxy's. -/
theorem guards_faithful (lawful : crates.Lawful) (flat : '/' ∉ ledger.key_prefix.toList)
    (files : proxy.policy.key_prefix = ledger.key_prefix)
    (names : proxy.store.config.key_prefix = ledger.key_prefix)
    (once : ∀ id first second, arrived id first → arrived id second → first = second) :
    Guards (Job.machine crates proxy)
      (Permits (Attributed ledger) fun _ id arrival => arrived id arrival ∧ arrival.Proxied)
      (World.Acts (Attributed ledger)) (Faithful ledger proxy.store) (fun _ => Grows)
      (fun id value _ => Concludes ledger arrived id value) where
  isRely := Grows.isRely
  acted _ _ choice _ _ _ _ permitted _ task result := ⟨choice, permitted _ _ task, result⟩
  looped := by
    intro id value program state faithful _ round
    cases id with
    | uploader =>
      cases value with
      | round goes =>
        cases goes <;> cases round
        exact upholds_yields faithful (upload_round_upholds flat state)
          fun _ _ => concludes_of_ne (by rintro _ ⟨⟩)
      | _ => cases round
    | _ => cases round
  arrived := by
    intro config id arrival program after welcome guarded result
    have faithful := guarded.shared
    rcases Job.accept_cases crates proxy result with ⟨number, rfl, called, rfl⟩ |
      ⟨number, host, port, rfl, opened, rfl, rfl⟩ |
      ⟨number, key, bytes, gha, rfl, waiting, client, rfl, rfl⟩
    · refine ⟨faithful, fun _ _ => .rfl, ?_⟩
      cases arrival with
      | load_index =>
        cases called
        exact upholds_yields faithful (load_index_upholds flat faithful)
          fun _ _ => concludes_of_ne (by rintro _ ⟨⟩)
      | load_pack =>
        cases called
        exact upholds_yields faithful (load_pack_upholds flat names faithful)
          fun _ _ => concludes_of_ne (by rintro _ ⟨⟩)
      | flush =>
        cases called
        exact upholds_yields faithful (flush_upholds flat names _)
          fun _ _ => concludes_of_ne (by rintro _ ⟨⟩)
      | request request tunnel_authority =>
        cases called
        refine upholds_yields faithful
          (dispatch_upholds flat files lawful request tunnel_authority faithful)
          fun response answers => ?_
        rintro other authority _ there ⟨⟩
        cases once _ _ _ welcome.1 there
        exact answers
      | get key => exact welcome.2.elim
      | put key bytes => exact welcome.2.elim
      | _ => cases called
    · refine ⟨faithful, fun _ _ => .rfl, ?_⟩
      have within := (serve_tunnel_passes proxy host port).mono fun _ passes => passes.1.inert
      exact upholds_yields faithful (upholds_of_within flat within _)
        fun _ _ => concludes_of_ne (by rintro _ ⟨⟩)
    · refine ⟨faithful, fun _ _ => .rfl, ?_⟩
      have original := faithful.2.spawned number (key, bytes) (lookup_mem waiting)
      exact upholds_yields faithful (upload_upholds flat gha original faithful)
        fun _ _ => concludes_of_ne (by rintro _ ⟨⟩)

/-- A job that begins holds nothing yet, and the service what it was left with. -/
theorem guarded_fresh (flat : '/' ∉ ledger.key_prefix.toList) {service : Service}
    (filed : Filed ledger.Genuine .empty service) (built : List Built) :
    Guarded (World.Acts (Attributed ledger)) (Faithful ledger proxy.store) (fun _ => Grows)
      (fun id value _ => Concludes ledger arrived id value)
      (Job.idle proxy (Job.fresh proxy service built)) := by
  have faithful : Faithful ledger proxy.store (Job.fresh proxy service built) := by
    refine ⟨filed, ?_, ?_, ?_, ?_, ?_⟩
    · rintro _ _ _ ⟨⟩
    · rintro _ _ _ ⟨⟩
    · rintro _ ⟨⟩
    · rintro _ _ ⟨⟩
    · exact fun _ none => absurd none (Finset.notMem_empty _)
  refine ⟨faithful, fun id program task => ?_⟩
  cases id with
  | uploader =>
    cases task
    exact upholds_yields faithful (upload_round_upholds flat _) fun _ _ =>
      concludes_of_ne (by rintro _ ⟨⟩)
  | _ => cases task

end Jobs

/-! ### All jobs together -/

section Fleet

variable {Jobs : Type} [DecidableEq Jobs] (crates : Crates) (proxies : Jobs → Proxy)
variable (events : List (Event (Jobs × TaskId) Choice Arrival)) ( key_prefix : String)

/-- What the jobs build that begin with an empty service. -/
def Fleet.ledger : Ledger crates where
  builds built := ∃ id, (id, ⟨.build_entry built.url built.status built.headers built.body,
    built.stored_at⟩) ∈ Fleet.history crates proxies .empty events
  key_prefix := key_prefix

variable {crates proxies events key_prefix} {after : Fleet Jobs}

/-- Whatever jobs do with an honest service, each of them stays faithful. -/
theorem fleet_faithful (lawful : crates.Lawful) (flat : '/' ∉ key_prefix.toList)
    (files : ∀ job, (proxies job).policy.key_prefix = key_prefix)
    (names : ∀ job, (proxies job).store.config.key_prefix = key_prefix)
    (ran : (Fleet.machine crates proxies).run (Fleet.start proxies .empty) events = some after)
    (permitting : (Fleet.machine crates proxies).Permitting
      (Fleet.Permits fun _ _ world action choice => honest crates world action choice = true)
      (Fleet.start proxies .empty) events)
    (proxied : ∀ id arrival, .arrive id arrival ∈ events → arrival.Proxied) (job : Jobs) :
    Guarded (World.Acts (Attributed (Fleet.ledger crates proxies events key_prefix)))
      (Faithful (Fleet.ledger crates proxies events key_prefix) (proxies job).store)
      (fun _ => Grows)
      (fun id value _ => Concludes (Fleet.ledger crates proxies events key_prefix)
        (fun id arrival => .arrive (job, id) arrival ∈ events) id value)
      (after.of served job) := by
  have permitting : (Fleet.machine crates proxies).Permitting
      (besidePermits served fun job => Permits
        (Attributed (Fleet.ledger crates proxies events key_prefix))
        fun _ id arrival => .arrive (job, id) arrival ∈ events ∧ arrival.Proxied)
      (Fleet.start proxies .empty) events := by
    intro front event back config parts ranFront
    have permits := permitting front event back config parts ranFront
    have member : event ∈ events := parts ▸ List.mem_append_right _ List.mem_cons_self
    cases event with
    | arrive id arrival => exact ⟨member, proxied id arrival member⟩
    | run id choice =>
      intro action next task
      refine ⟨permits action next task, ?_⟩
      split
      · rename_i url status headers body time
        refine ⟨id, parts ▸ Machine.mem_history ranFront (parts ▸ ran) ?_⟩
        exact Machine.performed_acted task rfl
      · trivial
  refine Guarded.beside (fun job => guards_faithful lawful flat (files job) (names job) ?_) ?_
    (permitting.reaches ran) (fun job => ?_) job
  · exact fun id first second hasFirst hasSecond => Machine.arrive_unique ran hasFirst hasSecond
  · intro mover other before event after state _ _ stepped _ moved faithful same
    have grows := Fleet.grows_share (stepped_grows stepped) same
    exact ⟨⟨moved.1, faithful.2.content, faithful.2.writing, faithful.2.queue, faithful.2.spawned,
      faithful.2.packed⟩, fun _ => grows⟩
  · rw [Fleet.of_start]
    exact guarded_fresh flat (filed_self Service.orderly_empty) []

/-- What an honest service comes to hold is what belongs under its names. -/
theorem entries_genuine (lawful : crates.Lawful) (flat : '/' ∉ key_prefix.toList)
    (files : ∀ job, (proxies job).policy.key_prefix = key_prefix)
    (names : ∀ job, (proxies job).store.config.key_prefix = key_prefix)
    (ran : (Fleet.machine crates proxies).run (Fleet.start proxies .empty) events = some after)
    (permitting : (Fleet.machine crates proxies).Permitting
      (Fleet.Permits fun _ _ world action choice => honest crates world action choice = true)
      (Fleet.start proxies .empty) events)
    (proxied : ∀ id arrival, .arrive id arrival ∈ events → arrival.Proxied) :
    ∀ item ∈ after.shared.part.entries,
      (Fleet.ledger crates proxies events key_prefix).Genuine item.1 item.2 := by
  intro item member
  rcases isEmpty_or_nonempty Jobs with none | ⟨⟨job⟩⟩
  · -- Without jobs nothing happens.
    cases events with
    | nil =>
      cases ran
      cases member
    | cons event rest =>
      cases event with
      | run id choice => exact none.elim id.1
      | arrive id arrival => exact none.elim id.1
  · exact (fleet_faithful lawful flat files names ran permitting proxied job).shared.1.fits
      item member

/-- A hit replays an entry that some job has built for the URL that was asked for, up to its
fragment and a default port. -/
theorem hit_replays (lawful : crates.Lawful) (flat : '/' ∉ key_prefix.toList)
    (files : ∀ job, (proxies job).policy.key_prefix = key_prefix)
    (names : ∀ job, (proxies job).store.config.key_prefix = key_prefix)
    (ran : (Fleet.machine crates proxies).run (Fleet.start proxies .empty) events = some after)
    (permitting : (Fleet.machine crates proxies).Permitting
      (Fleet.Permits fun _ _ world action choice => honest crates world action choice = true)
      (Fleet.start proxies .empty) events)
    (proxied : ∀ id arrival, .arrive id arrival ∈ events → arrival.Proxied)
    {job : Jobs} {number : Nat} {request : ClientRequest} {tunnel_authority : Option String}
    {response : Response}
    (arrived : .arrive (job, .call number) (.request request tunnel_authority) ∈ events)
    (answered : after.tasks (job, .call number) = some (.finish (.response response)))
    (hit : response.IsHit) :
    ∃ (url other : Url) (built : Built) (id : Jobs × TaskId),
      absolute_url crates request.uri tunnel_authority = .ok url ∧
      (id, ⟨.build_entry built.url built.status built.headers built.body, built.stored_at⟩) ∈
        Fleet.history crates proxies .empty events ∧
      built.url = other.as_str ∧ normalize other = normalize url ∧
      response = replay (built.entry crates) ∧ response.body = .full built.body := by
  have guarded := fleet_faithful lawful flat files names ran permitting proxied job
  obtain ⟨url, parsed, built, other, ⟨id, builds⟩, named, same, rfl⟩ :=
    guarded.finished Grows.isRely answered request tunnel_authority response arrived rfl hit
  exact ⟨url, other, built, id, parsed, builds, named, same, rfl, rfl⟩

end Fleet

/-! ### One hit -/

/-- The key of the example URL. -/
def exampleKey : String := "t-e0ad42054349f2ece2fafb306b91fec1df2d46e7cb57d17acfe22eb954af23a9"

/-- The texts of a service that stores and hands out again. -/
def servingSamples : Samples :=
  { exampleSamples with
    creates := reservingSamples.creates
    finalizes := reservingSamples.finalizes
    downloads := [(locatedText "https://blob.example/2", ⟨true, "https://blob.example/2"⟩),
      (locatedText "https://blob.example/3", ⟨true, "https://blob.example/3"⟩)] }

noncomputable def servingCrates : Crates := .ofSamples servingSamples

theorem servingCrates_lawful : servingCrates.Lawful := Samples.lawful (by decide +kernel)

/-- A proxy that stores whatever it may, each object in an entry of its own. -/
def storingProxy : Proxy :=
  { unpackedProxy with policy := { unpackedProxy.policy with cache_all := true } }

/-- A client asks for the example URL. -/
def exampleRequest : ClientRequest :=
  ⟨.GET, ⟨some ⟨"example.com", none⟩, "/a", some "/a", "https://example.com/a"⟩, []⟩

/-- The response is fetched and stored, on a disk that is full. -/
def fetchedRuns : List (Event TaskId Choice Arrival) :=
  [.arrive (.call 0) (.request exampleRequest none), .run (.call 0) (.collected (.ok [])),
    .run (.call 0) (.contents none), .run (.call 0) .quiet,
    .run (.call 0) (.upstream (.ok ⟨.OK, [], none, .ok (utf8 "x")⟩)), .run (.call 0) (.clock 0),
    .run (.call 0) (.clock 1700000000), .run (.call 0) .quiet, .run (.call 0) (.opened false),
    .run (.call 0) .quiet, .run (.call 0) .quiet, .run (.call 0) .quiet]

/-- The object is uploaded. -/
def uploadedRuns : List (Event TaskId Choice Arrival) :=
  spawnRuns ++ [.arrive (.upload 0) .upload, .run (.upload 0) .quiet,
    .run (.upload 0) (.replied (some ⟨.OK, createdText "https://blob.example/0"⟩)
      (.reserve "https://blob.example/0" exampleKey)),
    .run (.upload 0) (.uploaded (some .OK) true),
    .run (.upload 0) (.replied (some ⟨.OK, finalizedText⟩) (.commit (exampleKey, exampleRaw))),
    .run (.upload 0) .quiet, .run (.upload 0) .quiet, .run (.upload 0) .quiet,
      .run (.upload 0) .quiet]

/-- Another job learns the key and answers the request from the cache. -/
def servedRuns : List (Event TaskId Choice Arrival) :=
  [.arrive (.call 0) .load_index, .run (.call 0) .quiet,
    .run (.call 0) (.replied (some ⟨.OK, locatedText "https://blob.example/2"⟩)
      (.offer "https://blob.example/2" ("t-index-job-0-1", Store.manifest [exampleKey]))),
    .run (.call 0) (.downloaded (some (.OK, some (Store.manifest [exampleKey])))),
    .run (.call 0) .quiet,
    .arrive (.call 1) (.request exampleRequest none), .run (.call 1) (.collected (.ok [])),
    .run (.call 1) (.contents none), .run (.call 1) .quiet, .run (.call 1) .quiet,
      .run (.call 1) .quiet,
    .run (.call 1) (.replied (some ⟨.OK, locatedText "https://blob.example/3"⟩)
      (.offer "https://blob.example/3" (exampleKey, exampleRaw))),
    .run (.call 1) (.downloaded (some (.OK, some exampleRaw))), .run (.call 1) (.opened false),
    .run (.call 1) .quiet]

/-- One job stores the response, another one replays it. -/
def replayedRuns : List (Event (Bool × TaskId) Choice Arrival) :=
  eventsAt true (fetchedRuns ++ uploadedRuns ++ flushRuns ++
    manifestRuns [exampleKey] "t-index-job-0-1" "https://blob.example/1") ++
    eventsAt false servedRuns

theorem replayedRuns_proxied :
    ∀ id arrival, .arrive id arrival ∈ replayedRuns → arrival.Proxied := by
  intro id arrival member
  have all : (replayedRuns.all fun event => match event with
    | .arrive _ arrival => decide arrival.Proxied
    | .run _ _ => true) = true := rfl
  exact of_decide_eq_true (List.all_eq_true.mp all _ member)

/-- A proxy that stores whatever it may, small objects in the pack. -/
def packingProxy : Proxy :=
  { exampleProxy with policy := { exampleProxy.policy with cache_all := true } }

/-- The pack of the example's entry. -/
def examplePack : Bytes := Pack.encode
    [(exampleKey, exampleRaw)] packingProxy.store.config.pack_limit

/-- One job stores the response in a file, and its flush stores the pack. -/
def packRuns : List (Event (Bool × TaskId) Choice Arrival) :=
  eventsAt true
    ([.arrive (.call 0) (.request exampleRequest none)] ++
      [.collected (.ok []), .contents none, .quiet, .upstream (.ok ⟨.OK, [], none, .ok (utf8 "x")⟩),
        .clock 0, .clock 1700000000, .quiet, .opened true, .written none, .quiet, .quiet,
        .quiet].map (.run (.call 0)) ++
      [.arrive (.call 1) .flush, .run (.call 1) .quiet, .run (.call 1) .quiet,
        .run .uploader .quiet, .run .uploader .quiet] ++
      [.quiet, .quiet, .quiet, .listing [exampleKey], .contents (some exampleRaw), .clock 5, .quiet,
        .replied (some ⟨.OK, createdText "https://blob.example/0"⟩)
          (.reserve "https://blob.example/0" "t-pack-job-5-1"), .uploaded (some .OK) true,
        .replied (some ⟨.OK, finalizedText⟩) (.commit ("t-pack-job-5-1", examplePack))].map
          (.run (.call 1)))

theorem packRuns_proxied : ∀ id arrival, .arrive id arrival ∈ packRuns → arrival.Proxied := by
  intro id arrival member
  have all : (packRuns.all fun event => match event with
    | .arrive _ arrival => decide arrival.Proxied
    | .run _ _ => true) = true := rfl
  exact of_decide_eq_true (List.all_eq_true.mp all _ member)

set_option maxRecDepth 20000 in
/-- An honest service can run so, and comes to hold the pack. -/
theorem packRuns_ran : ∃ after : Fleet Bool,
    (Fleet.machine servingCrates fun _ => packingProxy).run
      (Fleet.start (fun _ => packingProxy) .empty)
      packRuns = some after ∧
    (Fleet.machine servingCrates fun _ => packingProxy).Permitting
      (Fleet.Permits fun _ _ world action choice => honest servingCrates world action choice = true)
      (Fleet.start (fun _ => packingProxy) .empty) packRuns ∧
    ("t-pack-job-5-1", examplePack) ∈ after.shared.part.entries := by
  obtain ⟨ran, truth⟩ := Machine.Permitting.of_runChecked
    (permits_of_checks fun _ _ _ _ _ checked => checked)
    (show (Fleet.machine servingCrates fun _ => packingProxy).runChecked
      (checks (honest servingCrates)) (Fleet.start (fun _ => packingProxy) .empty) packRuns =
        some _ from rfl)
  exact ⟨_, ran, truth, List.mem_cons_self⟩

/-- The pack is read back as the entry. -/
theorem decode_examplePack (mode : Build) :
    Pack.decode mode examplePack = .ok [(exampleKey, exampleRaw)] := by
  have keySmall : ∀ object ∈ [(exampleKey, exampleRaw)], (utf8 object.1).length < 2 ^ 32 := by
    decide +kernel
  rw [examplePack, Pack.decode_encode mode _ _ keySmall (by decide +kernel),
    Pack.keep_of_fits (by decide +kernel)]

set_option maxRecDepth 20000 in
/-- An honest service can run so, and the second job answers with a hit. -/
theorem replayedRuns_ran : ∃ after : Fleet Bool,
    (Fleet.machine servingCrates fun _ => storingProxy).run
      (Fleet.start (fun _ => storingProxy) .empty)
      replayedRuns = some after ∧
    (Fleet.machine servingCrates fun _ => storingProxy).Permitting
      (Fleet.Permits fun _ _ world action choice => honest servingCrates world action choice = true)
      (Fleet.start (fun _ => storingProxy) .empty) replayedRuns ∧
    (exampleKey, exampleRaw) ∈ after.shared.part.entries ∧
    ∃ entry : Entry servingCrates,
      after.tasks (false, .call 1) = some (.finish (.response (replay entry))) := by
  obtain ⟨ran, truth⟩ := Machine.Permitting.of_runChecked
    (permits_of_checks fun _ _ _ _ _ checked => checked)
    (show (Fleet.machine servingCrates fun _ => storingProxy).runChecked
      (checks (honest servingCrates)) (Fleet.start (fun _ => storingProxy) .empty) replayedRuns =
        some _ from rfl)
  exact ⟨_, ran, truth, List.mem_cons_self, _, rfl⟩

set_option maxRecDepth 20000 in
/-- The entry of the example URL was built for it, and so was the one in the pack. -/
theorem entries_genuine_replayed :
    (Fleet.ledger servingCrates (fun _ : Bool => storingProxy) replayedRuns "t").Original exampleKey
        exampleRaw ∧
      (Fleet.ledger servingCrates (fun _ : Bool => packingProxy) packRuns "t").Piece exampleKey
        exampleRaw := by
  constructor
  · obtain ⟨after, ran, truth, held, _⟩ := replayedRuns_ran
    have genuine := entries_genuine servingCrates_lawful (by decide) (fun _ => rfl)
      (fun _ => rfl) ran
      truth replayedRuns_proxied _ held
    exact genuine.1 ⟨exampleUrl, rfl⟩
  · obtain ⟨after, ran, truth, held⟩ := packRuns_ran
    have genuine := entries_genuine servingCrates_lawful (by decide) (fun _ => rfl)
      (fun _ => rfl) ran
      truth packRuns_proxied _ held
    exact genuine.2 (by decide +kernel) (by decide +kernel) .release _ (decode_examplePack .release)
      (exampleKey, exampleRaw) List.mem_cons_self

/-- The second job replays what the first one built. -/
theorem hit_replays_replayed : ∃ (url other : Url) (built : Built) (id : Bool × TaskId),
    absolute_url servingCrates exampleRequest.uri none = .ok url ∧
      (id, ⟨.build_entry built.url built.status built.headers built.body, built.stored_at⟩) ∈
        Fleet.history servingCrates (fun _ => storingProxy) .empty replayedRuns ∧
      built.url = other.as_str ∧ normalize other = normalize url := by
  obtain ⟨after, ran, truth, _, entry, answered⟩ := replayedRuns_ran
  have arrived : .arrive (false, .call 1) (.request exampleRequest none) ∈ replayedRuns := by
    simp [replayedRuns, eventsAt, servedRuns, Event.at]
  obtain ⟨url, other, built, id, parsed, builds, named, same, _⟩ :=
    hit_replays servingCrates_lawful (by decide) (fun _ => rfl) (fun _ => rfl) ran truth
      replayedRuns_proxied arrived answered (replay_isHit entry)
  exact ⟨url, other, built, id, parsed, builds, named, same⟩

end Cicache
