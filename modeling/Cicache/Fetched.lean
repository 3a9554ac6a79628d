/-
This file settles what becomes of an answer that was fetched. Whether its body passes through memory
is decided by the length it declares, so a body of undeclared length is collected however long it
is. Whether it is stored is decided by its own headers; the redirects it was reached by are followed
inside the client that fetches, which hands back the last answer and nothing of the others.
-/

import Cicache.CacheControl
import Cicache.Relay

namespace Cicache

open Text Interleaving Program

section Fetched

variable {crates : Crates} {proxy : Proxy} {exchange : Exchange crates}

/-! ### What passes through memory -/

/-- A body longer than the limit is streamed: whenever this answer was fetched and the client got
its response, the body of the one is the stream of the other. -/
def LongIsStreamed (proxy : Proxy) (exchange : Exchange crates) (response : Upstream)
    (body : Bytes) : Prop :=
  ∀ trail answer, (proxy.dispatch crates exchange.request exchange.tunnel_authority).Finishes
      (⟨.collect, .ok exchange.body⟩ :: trail) answer →
    fetching exchange (.ok response) ∈ trail → body.length > proxy.policy.max_size →
    answer.body = .stream (.ok body)

/-- A body that arrives whole is collected only when it is at most as long as the limit, exactly if
one that is longer comes with a declared length that is above the limit as well. -/
theorem longIsStreamed_iff (eligible : exchange.Eligible proxy) {response : Upstream} {body : Bytes}
    (whole : response.body = .ok body) :
    LongIsStreamed proxy exchange response body ↔
      (body.length > proxy.policy.max_size →
        response.content_length.any (fun length => length > proxy.policy.max_size) = true) := by
  have conveyed : ∀ trail answer, (proxy.dispatch crates exchange.request
      exchange.tunnel_authority).Finishes (⟨.collect, .ok exchange.body⟩ :: trail) answer →
      fetching exchange (.ok response) ∈ trail → answer.body =
        if response.content_length.getD 0 > proxy.policy.max_size then .stream (.ok body)
        else .full body := fun trail answer ends fetches =>
    conveys ends response body (Performs.fetched ⟨_, ends⟩ (List.mem_cons_of_mem _ fetches)) whole
  have declares :
      response.content_length.any (fun length => length > proxy.policy.max_size) = true ↔
      response.content_length.getD 0 > proxy.policy.max_size := by
    cases response.content_length with
    | none => exact iff_of_false nofun (Nat.not_lt_zero _)
    | some length => exact decide_eq_true_iff
  rw [declares]
  constructor
  · intro streamed long
    obtain ⟨trail, answer, ends, fetches⟩ := exists_fetch eligible (.ok response)
    have stream := streamed trail answer ends fetches long
    rw [conveyed trail answer ends fetches] at stream
    by_contra short
    rw [if_neg short] at stream
    cases stream
  · intro declared trail answer ends fetches long
    rw [conveyed trail answer ends fetches, if_pos (declared long)]

/-! ### What is stored behind redirects -/

/-- A redirect on the way to the last answer. -/
structure Hop where
  url : String
  status : StatusCode
  headers : HeaderMap
  isRedirect : 300 ≤ status.code ∧ status.code < 400

/-- The answers a request meets upstream: at most ten redirects, each leading to the next, and the
last answer. -/
structure Chain where
  hops : List Hop
  short : hops.length ≤ 10
  last : Upstream

/-- What the client that follows a chain hands back: the last answer, and nothing of the hops. -/
def Chain.answer (chain : Chain) : Except String Upstream := .ok chain.last

/-- The request met these answers and was handed to the store under its key. -/
def StoredBehind (proxy : Proxy) (exchange : Exchange crates) (chain : Chain) : Prop :=
  ∃ trail answer, Performs proxy exchange trail ∧ fetching exchange chain.answer ∈ trail ∧
    ⟨.insert .queued (exchange.key proxy), answer⟩ ∈ trail

theorem cacheControl_sanitize (headers : HeaderMap) :
    cacheControl (sanitize headers) = cacheControl headers := by
  have kept : ¬ Dropped .CACHE_CONTROL := by decide
  unfold cacheControl HeaderMap.get
  rw [get_all_sanitize, if_neg kept]

/-- What is stored is the last answer, and the policy allows it by that answer's headers. -/
theorem storable_of_stored {chain : Chain} (stored : StoredBehind proxy exchange chain) :
    ∃ body, chain.last.body = .ok body ∧
      proxy.policy.response_storable exchange.url chain.last.status.code
        (sanitize chain.last.headers) body.length = .ok () := by
  obtain ⟨trail, _, performs, fetches, inserts⟩ := stored
  obtain ⟨front, back, parts, ⟨_, _, response, body, fetched, whole, allowed⟩, lawful⟩ :=
    performs.allowed inserts
  have same : (seen trail).fetched = some response := by
    rw [parts, seen, List.foldl_append, List.foldl_cons]
    exact fetched_kept lawful fetched
  obtain rfl := Option.some_inj.mp (same.symm.trans (performs.fetched fetches))
  exact ⟨body, whole, allowed⟩

/-- With the check on and a URL outside the table, an answer is stored under the requested URL only
if the last response of the chain does not seem to forbid it and is marked as immutable or
long-lived. -/
theorem stored_only_if_last_allows (off : proxy.policy.cache_all = false)
    (moving : is_immutable_artifact exchange.url = false) {chain : Chain}
    (stored : StoredBehind proxy exchange chain) :
    ¬ SaysForbidden chain.last.headers ∧
      (contains (cacheControl chain.last.headers) "immutable" = true ∨
        (max_age (cacheControl chain.last.headers)).any
          (fun age => age ≥ proxy.policy.min_max_age) = true) := by
  obtain ⟨body, _, allowed⟩ := storable_of_stored stored
  have notRefused : ¬ ∃ reject, proxy.policy.response_storable exchange.url
      chain.last.status.code (sanitize chain.last.headers) body.length = .error reject := by
    rw [allowed]
    exact fun ⟨_, refused⟩ => nomatch refused
  rw [response_storable_error_iff, not_or, not_or, not_or, not_or, not_not, SaysForbidden,
    LooksImmutable, cacheControl_sanitize, off, moving] at notRefused
  obtain ⟨allows, _, _, _, looks⟩ := notRefused
  refine ⟨allows, ?_⟩
  rcases not_not.mp looks with all | immutable | aged | table
  · cases all
  · exact Or.inl immutable
  · exact Or.inr aged
  · cases table

end Fetched

theorem noStore_isValue : (utf8 "no-store").all isValueByte = true := by decide

/-- A moving link whose redirect forbids storing, to a file that lives long. -/
def latestLink : Chain where
  hops := [⟨"https://example.com/a", ⟨302, by decide⟩,
    [(.CACHE_CONTROL, ⟨utf8 "no-store", noStore_isValue⟩)], by decide⟩]
  short := by decide
  last := ⟨.OK, [(.CACHE_CONTROL, ⟨utf8 "max-age=31536000", by decide⟩)], some 1, .ok (utf8 "x")⟩

/-- The file is stored under the link. -/
theorem latestLink_stored : StoredBehind exampleProxy (exampleExchange []) latestLink := by
  have storable : exampleProxy.policy.response_storable exampleUrl latestLink.last.status.code
      (sanitize latestLink.last.headers) (utf8 "x").length = .ok () := by decide +kernel
  obtain ⟨rest, stores⟩ : ∃ rest, (exampleProxy.store_response exampleCrates exampleUrl .OK
      (sanitize latestLink.last.headers) (utf8 "x") ((exampleExchange []).key exampleProxy)).Takes
      [⟨.build_entry exampleUrl.as_str 200 (sanitize latestLink.last.headers) (utf8 "x"), 0⟩,
        ⟨.insert .queued ((exampleExchange []).key exampleProxy), true⟩] rest := by
    unfold Proxy.store_response
    rw [show exampleProxy.policy.response_storable exampleUrl StatusCode.OK.code
      (sanitize latestLink.last.headers) (utf8 "x").length = .ok () from storable]
    exact ⟨_, .step (.step .here)⟩
  have fetches : (exampleProxy.fetch_and_store exampleCrates .GET exampleUrl []
      ((exampleExchange []).key exampleProxy)).Takes
      (fetching (exampleExchange []) latestLink.answer :: ⟨.elapsed, 0⟩ :: _) _ :=
    .step (.step (stores.bind _))
  obtain ⟨front, performs⟩ := exists_performs (exampleExchange_eligible []) fetches
  refine ⟨_, true, performs, ?_, ?_⟩
  · exact List.mem_cons_of_mem _ (List.mem_append_right _ (by simp))
  · exact List.mem_cons_of_mem _ (List.mem_append_right _ (by simp))

/-- The last answer of that chain is what allows it. -/
theorem latestLink_allowed :
    ¬ SaysForbidden latestLink.last.headers ∧
      (contains (cacheControl latestLink.last.headers) "immutable" = true ∨
        (max_age (cacheControl latestLink.last.headers)).any
          (fun age => age ≥ exampleProxy.policy.min_max_age) = true) :=
  stored_only_if_last_allows rfl (by decide) latestLink_stored

/-- It is not so that whatever is stored behind redirects was forbidden by none of them. -/
theorem forbidding_hop_stored :
    ¬ ∀ (crates : Crates) (proxy : Proxy) (exchange : Exchange crates) (chain : Chain),
      exchange.Eligible proxy → proxy.policy.cache_all = false →
      is_immutable_artifact exchange.url = false → StoredBehind proxy exchange chain →
      ∀ hop ∈ chain.hops, ¬ Forbids hop.headers := by
  intro always
  refine always exampleCrates exampleProxy (exampleExchange []) latestLink
    (exampleExchange_eligible []) rfl (by decide) latestLink_stored _ (List.mem_singleton_self _) ?_
  exact ⟨⟨utf8 "no-store", by decide⟩, by decide, "no-store", by decide, by decide⟩

/-- A body of the given length and an answer that declares it. -/
def declared (length : Nat) : Upstream := ⟨.OK, [], some length, .ok (List.replicate length 0)⟩

/-- A body one byte above the limit that declares its length is streamed, where it is fetched. -/
theorem longIsStreamed_declared :
    (List.replicate 1048577 (0 : UInt8)).length > exampleProxy.policy.max_size ∧
      (∃ trail answer, (exampleProxy.dispatch exampleCrates (exampleExchange []).request
          (exampleExchange []).tunnel_authority).Finishes
          (⟨.collect, .ok (exampleExchange []).body⟩ :: trail) answer ∧
        fetching (exampleExchange []) (.ok (declared 1048577)) ∈ trail) ∧
      LongIsStreamed exampleProxy (exampleExchange []) (declared 1048577)
        (List.replicate 1048577 0) := by
  refine ⟨?_, exists_fetch (exampleExchange_eligible []) _,
    (longIsStreamed_iff (exampleExchange_eligible []) rfl).mpr fun _ => ?_⟩
  · rw [List.length_replicate]
    decide
  · have above : 1048577 > exampleProxy.policy.max_size := by decide
    exact decide_eq_true above

/-- A long answer in chunks, without a declared length. -/
def chunked (length : Nat) : Upstream := ⟨.OK, [], none, .ok (List.replicate length 0)⟩

/-- A long answer in chunks is collected. -/
theorem chunked_collected :
    ¬ ∀ (crates : Crates) (proxy : Proxy) (exchange : Exchange crates) (response : Upstream)
      (body : Bytes), exchange.Eligible proxy → response.body = .ok body →
      (∀ length, response.content_length = some length → length = body.length) →
      LongIsStreamed proxy exchange response body := by
  intro always
  have long : (List.replicate 1048577 (0 : UInt8)).length > exampleProxy.policy.max_size := by
    rw [List.length_replicate]
    decide
  obtain ⟨trail, answer, ends, fetches⟩ := exists_fetch (exampleExchange_eligible [])
    (.ok (chunked 1048577))
  have streamed := always exampleCrates exampleProxy (exampleExchange []) (chunked 1048577) _
    (exampleExchange_eligible []) rfl (fun _ none => nomatch none) trail answer ends fetches long
  have collected := conveys ends (chunked 1048577) _
    (Performs.fetched ⟨_, ends⟩ (List.mem_cons_of_mem _ fetches)) rfl
  rw [streamed] at collected
  have undeclared : ¬ ((chunked 1048577).content_length.getD 0 > exampleProxy.policy.max_size) :=
    Nat.not_lt_zero _
  rw [if_neg undeclared] at collected
  cases collected

end Cicache
