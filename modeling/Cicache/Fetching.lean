/-
This file follows a request through the proxy: its body is read, a request to a bypassed host or
the like is forwarded, any other is looked up and, on a miss, fetched and perhaps stored. What it
may do next depends on what it has seen so far, its body and the answer of the upstream server.

The two ways upstream rebuild the request from the same parts. The one that fetches leaves the body
out; so a request is relayed as it was exactly when it is not fetched or has no body.
-/

import Cicache.Outcomes
import Cicache.Lib.Stages

namespace Cicache

open Text Interleaving Program

/-- A client's request for a URL, which came through a tunnel or names whom it is for, with the body
that is read of it. -/
structure Exchange (crates : Crates) where
  request : ClientRequest
  tunnel_authority : Option String
  routed : ¬ (tunnel_authority = none ∧ request.uri.authority.isNone = true)
  url : Url
  parsed : absolute_url crates request.uri tunnel_authority = .ok url
  body : Bytes

section Request

variable {crates : Crates} (proxy : Proxy) (exchange : Exchange crates)

/-- What a request has seen: its body, and what was fetched for it. -/
structure Seen where
  body : Option Bytes
  fetched : Option Upstream

def Seen.next (seen : Seen) (done : Done Act Answer) : Seen :=
  match done with
  | ⟨.collect, .ok body⟩ => { seen with body := some body }
  | ⟨.send_request .fetcher _ _ _ _, .ok response⟩ => { seen with fetched := some response }
  | _ => seen

/-- The request is one that is looked up in the cache. -/
def Exchange.Eligible : Prop :=
  proxy.policy.request_eligible crates exchange.request.method exchange.url
    exchange.request.headers = .ok ()

/-- The key the request is looked up under. -/
def Exchange.key : String := proxy.policy.key crates exchange.url

/-- The two forms in which a request with this body is sent on. -/
inductive Sent (body : Bytes) : Client → HeaderMap → Option Bytes → Prop where
  | forwarded (ineligible : ¬ exchange.Eligible proxy) :
      Sent body .forwarder (sanitize exchange.request.headers) (some body)
  | fetched (eligible : exchange.Eligible proxy) :
      Sent body .fetcher ((sanitize exchange.request.headers).insert .ACCEPT_ENCODING IDENTITY) none

/-- The answer was fetched whole, and the policy lets it be stored. -/
def Storable (seen : Seen) : Prop :=
  ∃ response body, seen.fetched = some response ∧ response.body = .ok body ∧
    proxy.policy.response_storable exchange.url response.status.code (sanitize response.headers)
      body.length = .ok ()

/-- What a request may do, given what it has seen. -/
def requestStages : Stages Act Answer Unit Seen where
  first := ⟨none, none⟩
  next := Seen.next
  allows _ seen action :=
    match action with
    | .collect => seen = ⟨none, none⟩
    | .send_request client method url headers sent =>
        seen.fetched = none ∧ method = exchange.request.method ∧ url = exchange.url.as_str ∧
          ∃ body, seen.body = some body ∧ Sent proxy exchange body client headers sent
    | .insert .queued key =>
        key = exchange.key proxy ∧ exchange.Eligible proxy ∧ Storable proxy exchange seen
    | .read path => path = proxy.store.path (exchange.key proxy) ∧ exchange.Eligible proxy
    | _ => True

/-- Actions that a request may perform at any time, and that show it nothing. -/
def Incidental : Act → Prop
  | .collect | .send_request _ _ _ _ _ | .read _ => False
  | .insert set _ => set ≠ .queued
  | _ => True

/-- How the body of what was fetched whole reaches the client: as a stream when the length it
declares is above the limit, and otherwise from memory. -/
def Conveys (seen : Seen) (answer : ResBody) : Prop :=
  ∀ response body, seen.fetched = some response → response.body = .ok body →
    answer = if response.content_length.getD 0 > proxy.policy.max_size then .stream (.ok body)
      else .full body

/-- The same of a result: it is no failure when the fetched body arrived whole. -/
def ConveysResult (seen : Seen) : Except String Response → Prop
  | .ok answer => Conveys proxy seen answer.body
  | .error _ => ∀ response, seen.fetched = some response → ∀ body, response.body ≠ .ok body

/-! ### The parts of a request -/

variable {exchange}

theorem Incidental.rests {action : Act} (incidental : Incidental action) (seen : Seen) :
    (requestStages proxy exchange).Rests () seen action := by
  cases action with
  | insert set key =>
    cases set with
    | queued => exact absurd rfl incidental
    | _ => exact ⟨trivial, fun _ => rfl⟩
  | collect => exact incidental.elim
  | send_request client method url headers sent => exact incidental.elim
  | read path => exact incidental.elim
  | _ => exact ⟨trivial, fun _ => rfl⟩

theorem incidental_follows {Result : Type} {program : Task Result} (seen : Seen)
    (within : program.Within Incidental) :
    (requestStages proxy exchange).Follows () (fun _ later => later = seen) program seen :=
  Stages.follows_of_within (within.mono fun _ incidental => incidental.rests proxy seen)

theorem Asking.incidental {action : Act} (asking : Asking action) : Incidental action := by
  cases action with
  | insert set key => exact asking.elim
  | _ => trivial

/-- Looking an object up reads the file of its key and no other. -/
theorem get_follows (eligible : exchange.Eligible proxy) (seen : Seen) :
    (requestStages proxy exchange).Follows () (fun _ later => later = seen)
      (proxy.store.get crates (exchange.key proxy)) seen := by
  unfold Store.get
  refine Stages.follows_act ⟨rfl, eligible⟩ fun local_bytes => ?_
  refine incidental_follows proxy seen ?_
  cases local_bytes with
  | some bytes => exact trivial
  | none =>
    dsimp only
    split
    · exact trivial
    · refine .act trivial fun known => ?_
      split
      · refine .act trivial fun missed => ?_
        split
        · exact trivial
        · refine ((fetch_asking crates _ _ _).mono fun _ => Asking.incidental).bind fun fetched =>
            ?_
          rcases fetched with err | (_ | bytes)
          · exact .act nofun fun _ => trivial
          · exact .act nofun fun _ => trivial
          · exact (write_within trivial trivial).bind fun _ => trivial
      · exact trivial

theorem store_put_follows (eligible : exchange.Eligible proxy) {seen : Seen}
    (storable : Storable proxy exchange seen) (bytes : Bytes) :
    (requestStages proxy exchange).Follows () (fun _ later => later = seen)
      (proxy.store.put (exchange.key proxy) bytes) seen := by
  unfold Store.put
  refine Stages.follows_act ⟨rfl, eligible, storable⟩ fun fresh => ?_
  refine incidental_follows proxy seen ?_
  split
  · refine (write_within trivial trivial).bind fun _ => ?_
    split
    · refine .act nofun fun added => ?_
      split
      · exact ⟨trivial, fun _ => trivial⟩
      · exact trivial
    · refine .act trivial fun cloned => ?_
      split
      · exact ⟨trivial, fun _ => trivial⟩
      · exact trivial
  · exact trivial

theorem store_response_follows (eligible : exchange.Eligible proxy) {seen : Seen}
    {response : Upstream} {body : Bytes} (fetched : seen.fetched = some response)
    (whole : response.body = .ok body) :
    (requestStages proxy exchange).Follows () (fun _ later => later = seen)
      (proxy.store_response crates exchange.url response.status (sanitize response.headers) body
        (exchange.key proxy)) seen := by
  unfold Proxy.store_response
  split
  · rename_i allowed
    refine Stages.follows_act trivial fun stored_at => ?_
    split
    · refine Stages.follows_bind (store_put_follows proxy eligible ⟨response, body, fetched, whole,
        allowed⟩ _) fun _ later same => ?_
      exact same
    · rfl
  · rfl

/-- Before anything is fetched, any answer will do. -/
theorem conveysResult_of_unfetched {seen : Seen} (unfetched : seen.fetched = none)
    (result : Except String Response) : ConveysResult proxy seen result := by
  cases result with
  | ok answer =>
    intro response body fetched
    rw [unfetched] at fetched
    cases fetched
  | error message =>
    intro response fetched
    rw [unfetched] at fetched
    cases fetched

theorem fetch_and_store_follows (eligible : exchange.Eligible proxy) (body : Bytes) :
    (requestStages proxy exchange).Follows () (fun result later => ConveysResult proxy later result)
      (proxy.fetch_and_store crates exchange.request.method exchange.url exchange.request.headers
        (exchange.key proxy)) ⟨some body, none⟩ := by
  unfold Proxy.fetch_and_store
  refine Stages.follows_act ⟨rfl, rfl, rfl, body, rfl, .fetched eligible⟩ fun answer => ?_
  cases answer with
  | error err => exact Stages.follows_finish (conveysResult_of_unfetched proxy rfl _)
  | ok response =>
    dsimp only
    show Stages.Follows _ _ _ _ (⟨some body, some response⟩ : Seen)
    split
    · rename_i declared
      refine Stages.follows_act trivial fun elapsed => Stages.follows_act trivial fun _ => ?_
      rintro other bytes ⟨⟩ whole
      rw [if_pos declared, ← whole]
      rfl
    · rename_i declared
      split
      · rename_i err broken
        rintro other ⟨⟩ bytes whole
        rw [broken] at whole
        cases whole
      · rename_i bytes whole
        refine Stages.follows_act trivial fun elapsed => ?_
        refine Stages.follows_bind (store_response_follows proxy eligible rfl whole) ?_
        rintro outcome later rfl
        refine Stages.follows_act trivial fun _ => ?_
        rintro other more ⟨⟩ again
        rw [if_neg declared]
        rw [whole] at again
        cases again
        rfl

theorem handle_follows :
    (requestStages proxy exchange).Follows () (fun result later => ConveysResult proxy later result)
      (proxy.handle crates exchange.request.method exchange.request.headers exchange.url)
      ⟨none, none⟩ := by
  unfold Proxy.handle
  refine Stages.follows_act rfl fun collected => ?_
  cases collected with
  | error err => exact Stages.follows_finish (conveysResult_of_unfetched proxy rfl _)
  | ok body =>
    dsimp only
    show Stages.Follows _ _ _ _ (⟨some body, none⟩ : Seen)
    split
    · rename_i reject ineligible
      have refused : ¬ exchange.Eligible proxy := fun eligible => by
        rw [Exchange.Eligible, ineligible] at eligible
        cases eligible
      unfold Proxy.forward
      refine Stages.follows_act ⟨rfl, rfl, rfl, body, rfl, .forwarded refused⟩ fun answer => ?_
      cases answer with
      | error err => exact Stages.follows_finish (conveysResult_of_unfetched proxy rfl _)
      | ok response =>
        refine Stages.follows_act trivial fun _ => Stages.follows_act trivial fun _ => ?_
        exact Stages.follows_finish (conveysResult_of_unfetched proxy rfl _)
    · rename_i eligible
      have looks : (requestStages proxy exchange).Follows ()
          (fun _ later => later = ⟨some body, none⟩)
          (proxy.lookup crates (exchange.key proxy)) ⟨some body, none⟩ := by
        unfold Proxy.lookup
        refine Stages.follows_bind (get_follows proxy eligible _) fun raw later same => ?_
        cases raw with
        | none => exact same
        | some raw =>
          dsimp only
          split
          · exact same
          · exact same
      refine Stages.follows_bind looks ?_
      rintro found later rfl
      cases found with
      | some entry =>
        refine Stages.follows_act trivial fun _ => ?_
        exact Stages.follows_finish (conveysResult_of_unfetched proxy rfl _)
      | none => exact fetch_and_store_follows proxy eligible body

/-- A request keeps to its stages from its first action to its last. -/
theorem dispatch_follows :
    (requestStages proxy exchange).Follows () (fun answer later => Conveys proxy later answer.body)
      (proxy.dispatch crates exchange.request exchange.tunnel_authority) ⟨none, none⟩ := by
  have aside : ∀ {program : Task Response}, program.Within Incidental →
      (requestStages proxy exchange).Follows ()
        (fun answer later => Conveys proxy later answer.body) program ⟨none, none⟩ := by
    intro program within
    refine (incidental_follows proxy ⟨none, none⟩ within).mono ?_
    rintro answer later rfl
    exact nofun
  unfold Proxy.dispatch
  split
  · unfold Proxy.connect
    split
    · exact aside trivial
    · exact aside (.act trivial fun _ => trivial)
  · rw [if_neg exchange.routed, Proxy.proxied, exchange.parsed]
    refine Stages.follows_bind (handle_follows proxy) fun result later conveys => ?_
    cases result with
    | ok answer => exact conveys
    | error message =>
      refine Stages.follows_act trivial fun _ => ?_
      exact fun response body fetched whole => absurd whole (conveys response fetched body)

/-! ### What a trail tells -/

/-- What a request has seen after these actions. -/
def seen (trail : Trail) : Seen := trail.foldl Seen.next ⟨none, none⟩

/-- The request performed these actions, and may go on. -/
def Performs (proxy : Proxy) (exchange : Exchange crates) (trail : Trail) : Prop :=
  ∃ rest, (proxy.dispatch crates exchange.request exchange.tunnel_authority).Takes trail rest

variable {proxy} {trail : Trail}

theorem Performs.lawful (performs : Performs proxy exchange trail) :
    (requestStages proxy exchange).Lawful () ⟨none, none⟩ trail :=
  let ⟨_, takes⟩ := performs
  ((dispatch_follows proxy).lawful takes).1

/-- Each action was allowed by what the request had seen before it. -/
theorem Performs.allowed (performs : Performs proxy exchange trail) {done : Done Act Answer}
    (member : done ∈ trail) : ∃ front back, trail = front ++ done :: back ∧
      (requestStages proxy exchange).allows () (seen front) done.action ∧
      (requestStages proxy exchange).Lawful () (Seen.next (seen front) done) back := by
  obtain ⟨front, back, rfl⟩ := List.append_of_mem member
  exact ⟨front, back, rfl, performs.lawful.append.2⟩

/-- A body that was read stays the body. -/
theorem body_kept {stage : Seen} {body : Bytes}
    (lawful : (requestStages proxy exchange).Lawful () stage trail)
    (read : stage.body = some body) :
    (trail.foldl Seen.next stage).body = some body := by
  refine lawful.keeps (fun seen => seen.body = some body) (fun seen done allowed read => ?_) read
  obtain ⟨action, answer⟩ := done
  cases action with
  | collect =>
    have nothing : seen = ⟨none, none⟩ := allowed
    rw [nothing] at read
    cases read
  | send_request client method url headers sent =>
    cases client with
    | forwarder => exact read
    | fetcher => cases answer <;> exact read
  | _ => exact read

/-- Each action behind the reading of the body was allowed with that body. -/
theorem Performs.read {body : Bytes}
    (performs : Performs proxy exchange (⟨.collect, .ok body⟩ :: trail)) {done : Done Act Answer}
    (member : done ∈ trail) :
    ∃ stage : Seen, stage.body = some body ∧
      (requestStages proxy exchange).allows () stage done.action := by
  obtain ⟨front, back, rfl⟩ := List.append_of_mem member
  obtain ⟨before, allowed⟩ := performs.lawful.2.append
  exact ⟨_, body_kept before rfl, allowed.1⟩

/-- An answer that was fetched stays the answer. -/
theorem fetched_kept {stage : Seen} {response : Upstream}
    (lawful : (requestStages proxy exchange).Lawful () stage trail)
    (fetched : stage.fetched = some response) :
    (trail.foldl Seen.next stage).fetched = some response := by
  refine lawful.keeps (fun seen => seen.fetched = some response)
    (fun seen done allowed fetched => ?_) fetched
  obtain ⟨action, answer⟩ := done
  cases action with
  | collect => cases answer <;> exact fetched
  | send_request client method url headers sent =>
    have nothing : seen.fetched = none := allowed.1
    rw [nothing] at fetched
    cases fetched
  | _ => exact fetched

/-- What the fetcher answered is what the request goes on with. -/
theorem Performs.fetched (performs : Performs proxy exchange trail) {method : Method}
    {url : String} {headers : HeaderMap} {sent : Option Bytes} {response : Upstream}
    (member : ⟨.send_request .fetcher method url headers sent, .ok response⟩ ∈ trail) :
    (seen trail).fetched = some response := by
  obtain ⟨front, back, rfl, _, lawful⟩ := performs.allowed member
  have goesOn := fetched_kept lawful rfl
  rwa [seen, List.foldl_append, List.foldl_cons]

/-- The response to the client has the body that was fetched. -/
theorem conveys {answer : Response}
    (ends : (proxy.dispatch crates exchange.request exchange.tunnel_authority).Finishes trail
      answer) : Conveys proxy (seen trail) answer.body :=
  ((dispatch_follows proxy).lawful ends).2

theorem Exchange.Eligible.method (eligible : exchange.Eligible proxy) :
    exchange.request.method = .GET := by
  by_contra other
  rw [Exchange.Eligible, Policy.request_eligible, if_pos other] at eligible
  cases eligible

/-- Looking an object up may find nothing. -/
theorem exists_miss (crates : Crates) (proxy : Proxy) (key : String) :
    ∃ trail, (proxy.lookup crates key).Finishes trail none := by
  unfold Proxy.lookup Store.get
  cases proxy.store.gha with
  | none => exact ⟨[⟨.read (proxy.store.path key), none⟩], .step .here⟩
  | some gha =>
    exact ⟨[⟨.read (proxy.store.path key), none⟩, ⟨.contains .index key, false⟩],
      .step (.step .here)⟩

/-- Fetching a request, with the answer it gets. -/
def fetching (exchange : Exchange crates) (answered : Except String Upstream) : Done Act Answer :=
  ⟨.send_request .fetcher exchange.request.method exchange.url.as_str
    ((sanitize exchange.request.headers).insert .ACCEPT_ENCODING IDENTITY) none, answered⟩

/-- A request that is looked up may find nothing and go on with any way of fetching it. -/
theorem exists_performs {proxy : Proxy} {exchange : Exchange crates}
    (eligible : exchange.Eligible proxy) {path : Trail} {rest : Task (Except String Response)}
    (fetches : (proxy.fetch_and_store crates exchange.request.method exchange.url
      exchange.request.headers (exchange.key proxy)).Takes path rest) :
    ∃ front, Performs proxy exchange (⟨.collect, .ok exchange.body⟩ :: (front ++ path)) := by
  obtain ⟨front, misses⟩ := exists_miss crates proxy (exchange.key proxy)
  have connects : ¬ (exchange.tunnel_authority = none ∧ exchange.request.method = .CONNECT) := by
    rw [eligible.method]
    exact fun both => nomatch both.2
  have handles : (proxy.handle crates exchange.request.method exchange.request.headers
      exchange.url).Takes (⟨.collect, .ok exchange.body⟩ :: (front ++ path)) rest := by
    refine .step ?_
    dsimp only
    rw [show proxy.policy.request_eligible crates exchange.request.method exchange.url
      exchange.request.headers = .ok () from eligible]
    exact misses.bind fetches
  refine ⟨front, ?_⟩
  rw [Performs, Proxy.dispatch, if_neg connects, if_neg exchange.routed, Proxy.proxied,
    exchange.parsed]
  exact ⟨_, handles.bind _⟩

/-- A request that is looked up may be fetched with any answer and come to its end. -/
theorem exists_fetch {proxy : Proxy} {exchange : Exchange crates}
    (eligible : exchange.Eligible proxy) (answered : Except String Upstream) :
    ∃ trail answer, (proxy.dispatch crates exchange.request exchange.tunnel_authority).Finishes
      (⟨.collect, .ok exchange.body⟩ :: trail) answer ∧ fetching exchange answered ∈ trail := by
  obtain ⟨rest, fetches⟩ : ∃ rest, (proxy.fetch_and_store crates exchange.request.method
      exchange.url exchange.request.headers (exchange.key proxy)).Takes
      [fetching exchange answered] rest := ⟨_, .step .here⟩
  obtain ⟨front, later, dispatches⟩ := exists_performs eligible fetches
  obtain ⟨back, answer, ends⟩ := dispatches.exists_finishes
  refine ⟨front ++ [fetching exchange answered] ++ back, answer, ends, ?_⟩
  exact List.mem_append_left _ (List.mem_append_right _ List.mem_cons_self)

end Request

/-- A request for the example URL, with some body. -/
noncomputable def exampleExchange (body : Bytes) : Exchange exampleCrates where
  request := ⟨.GET, ⟨some ⟨"example.com", none⟩, "/a", some "/a", "https://example.com/a"⟩, []⟩
  tunnel_authority := none
  routed := by decide
  url := exampleUrl
  parsed := rfl
  body := body

theorem exampleExchange_eligible (body : Bytes) : (exampleExchange body).Eligible exampleProxy := by
  have open_host : exampleProxy.policy.is_bypassed exampleUrl.host_str = false := by decide
  unfold Exchange.Eligible Policy.request_eligible
  have gets : ¬ (exampleExchange body).request.method ≠ .GET := not_not.mpr rfl
  rw [if_neg gets, if_neg (Bool.not_eq_true _ ▸ open_host)]
  rfl

end Cicache
