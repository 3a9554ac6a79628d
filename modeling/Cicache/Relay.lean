/-
This file settles whether requests reach the upstream server as the client sent them. Both ways
upstream drop the same headers, and the one that fetches asks for no encoding besides. That way
drops the body as well, although the headers go on announcing it; and the key says nothing about the
body either, so a request may be answered with the entry of one that had another.
-/

import Cicache.Fetching

namespace Cicache

open Text Interleaving Program

/-- A parsed URL leaves out the port that its scheme has by default. -/
def Crates.DropsDefaultPorts (crates : Crates) : Prop :=
  ∀ text url, crates.parseUrl text = .ok url → ¬ ((url.scheme, url.port) = ("https", some 443) ∨
    (url.scheme, url.port) = ("http", some 80))

/-- The headers that are dropped on the way. -/
def Dropped (name : HeaderName) : Prop := HOP_BY_HOP.contains name.text = true ∨ name = .HOST

instance (name : HeaderName) : Decidable (Dropped name) :=
  inferInstanceAs (Decidable (_ ∨ _))

/-- The values a request is sent on with. -/
def relayedValues (client : Client) (headers : HeaderMap) (name : HeaderName) : List HeaderValue :=
  if Dropped name then []
  else if client = .fetcher ∧ name = .ACCEPT_ENCODING then [IDENTITY]
  else headers.get_all name

section Relay

variable {crates : Crates} (proxy : Proxy)

/-- Whatever is sent upstream for the request is the request: its method, its URL, its body, and
its headers but for those that are dropped and the encoding asked for. -/
def Relayed (exchange : Exchange crates) : Prop :=
  ∀ trail, Performs proxy exchange (⟨.collect, .ok exchange.body⟩ :: trail) →
    ∀ client method url headers sent answer,
      ⟨.send_request client method url headers sent, answer⟩ ∈ trail →
      method = exchange.request.method ∧ url = exchange.url.as_str ∧
        sent.getD [] = exchange.body ∧
        ∀ name, headers.get_all name = relayedValues client exchange.request.headers name

/-- Whenever one request hands an entry to the store and another, in the same job or a later one, is
answered from the file of that entry's key, they agree in the method, in the URL up to the
fragment, and in the body. -/
def SameRequest (other : Proxy) (first later : Exchange crates) : Prop :=
  ∀ key stores reads, Performs proxy first (⟨.collect, .ok first.body⟩ :: stores) →
    (∃ answer, ⟨.insert .queued key, answer⟩ ∈ stores) →
    Performs other later (⟨.collect, .ok later.body⟩ :: reads) →
    (∃ answer, ⟨.read (other.store.path key), answer⟩ ∈ reads) →
    (∃ done ∈ reads, done.action.outcome = some .Hit) →
    first.request.method = later.request.method ∧
      first.url.dropFragment = later.url.dropFragment ∧ first.body = later.body

variable {proxy} {other : Proxy}

/-- The headers left after dropping some names. -/
theorem get_all_sanitize (headers : HeaderMap) (name : HeaderName) :
    (sanitize headers).get_all name = if Dropped name then [] else headers.get_all name := by
  have dropped : (!(HOP_BY_HOP.contains name.text || name = HeaderName.HOST)) = true ↔
      ¬ Dropped name := by
    rw [Bool.not_eq_true', ← Bool.not_eq_true, Bool.or_eq_true, decide_eq_true_iff, Dropped]
  unfold sanitize
  induction headers with
  | nil => exact (ite_self _).symm
  | cons header rest inductionHypothesis =>
    rw [List.filter_cons, HeaderMap.get_all_cons]
    by_cases same : header.1 = name
    · rw [same, if_pos rfl]
      by_cases drops : Dropped name
      · rw [if_neg (mt dropped.mp (not_not.mpr drops)), inductionHypothesis, if_pos drops,
          if_pos drops]
      · rw [if_pos (dropped.mpr drops), HeaderMap.get_all_cons, if_pos same, inductionHypothesis,
          if_neg drops, if_neg drops]
    · rw [if_neg same]
      split
      · rw [HeaderMap.get_all_cons, if_neg same, inductionHypothesis]
      · exact inductionHypothesis

/-- Both forms of a request keep its headers as they should. -/
theorem Sent.headers {exchange : Exchange crates} {body : Bytes} {client : Client}
    {headers : HeaderMap} {sent : Option Bytes}
    (form : Sent proxy exchange body client headers sent) (name : HeaderName) :
    headers.get_all name = relayedValues client exchange.request.headers name := by
  unfold relayedValues
  cases form with
  | forwarded ineligible =>
    have notFetched : ¬ (Client.forwarder = .fetcher ∧ name = .ACCEPT_ENCODING) := fun both =>
      nomatch both.1
    rw [get_all_sanitize, if_neg notFetched]
  | fetched eligible =>
    rw [HeaderMap.get_all_insert, get_all_sanitize]
    by_cases encoding : name = .ACCEPT_ENCODING
    · have kept : ¬ Dropped name := by
        subst encoding
        decide
      rw [if_pos encoding, if_neg kept, if_pos ⟨rfl, encoding⟩]
    · have other : ¬ (Client.fetcher = .fetcher ∧ name = .ACCEPT_ENCODING) := fun both =>
        encoding both.2
      rw [if_neg encoding, if_neg other]

/-- What is sent has the body that was read, but on the way that fetches. -/
theorem Sent.body {exchange : Exchange crates} {body : Bytes} {client : Client}
    {headers : HeaderMap} {sent : Option Bytes}
    (form : Sent proxy exchange body client headers sent)
    (empty : exchange.Eligible proxy → body = []) : sent.getD [] = body := by
  cases form with
  | forwarded ineligible => rfl
  | fetched eligible => exact (empty eligible).symm

/-- A request is relayed as it was exactly when it is forwarded or has no body. -/
theorem relayed_iff (exchange : Exchange crates) :
    Relayed proxy exchange ↔ (exchange.Eligible proxy → exchange.body = []) := by
  constructor
  · intro relayed eligible
    obtain ⟨trail, answer, ends, sends⟩ := exists_fetch eligible (.error "")
    exact (relayed trail ⟨_, ends⟩ _ _ _ _ _ _ sends).2.2.1.symm
  · intro empty trail performs client method url headers sent answer member
    obtain ⟨stage, read, _, sameMethod, sameUrl, body, known, form⟩ := performs.read member
    obtain rfl := Option.some_inj.mp (read.symm.trans known)
    exact ⟨sameMethod, sameUrl, form.body empty, form.headers⟩

/-- The file of a key is named after the digest the key ends in. -/
theorem digest_of_path (lawful : crates.Lawful) {url second : Url}
    (same : other.store.path (proxy.policy.key crates url) =
      other.store.path (other.policy.key crates second)) : normalize url = normalize second := by
  have noHyphen : ∀ url, '-' ∉ (Policy.digest crates url).toList := fun url member =>
    absurd (isHexDigit_of_mem_hex member) (by decide)
  obtain ⟨front, joined⟩ := Path.join_ends other.store.objects (proxy.policy.key crates url)
  obtain ⟨back, alsoJoined⟩ := Path.join_ends other.store.objects (other.policy.key crates second)
  rw [Store.path, Store.path, joined, alsoJoined] at same
  have letters := congrArg String.toList same
  simp only [Policy.key, String.toList_append, List.append_assoc] at letters
  rw [← List.append_assoc, ← List.append_assoc back.toList] at letters
  have digests := (split_at_last (noHyphen url) (noHyphen second) letters).2
  exact (Policy.digest_eq_iff lawful url second).mp (String.toList_inj.mp digests)

/-- A URL that was parsed has no default port to drop. -/
theorem Exchange.normalize_url (ports : crates.DropsDefaultPorts) (exchange : Exchange crates) :
    normalize exchange.url = exchange.url.dropFragment := by
  have bare : ∃ text, crates.parseUrl text = .ok exchange.url := by
    have parsed := exchange.parsed
    unfold absolute_url at parsed
    split at parsed
    · exact ⟨_, parsed⟩
    · split at parsed
      · rename_i url found
        cases parsed
        exact ⟨_, found⟩
      · cases parsed
  obtain ⟨text, found⟩ := bare
  exact if_neg (ports text exchange.url found)

/-- A request answered from an entry agrees with the one that made it when neither had a body. -/
theorem sameRequest_of_empty (lawful : crates.Lawful) (ports : crates.DropsDefaultPorts)
    {first later : Exchange crates} (noBody : first.Eligible proxy → first.body = [])
    (alsoNone : later.Eligible other → later.body = []) :
    SameRequest proxy other first later := by
  rintro key stores reads firstPerforms ⟨_, handed⟩ laterPerforms ⟨_, looked⟩ _
  obtain ⟨_, _, rfl, firstEligible, _⟩ := firstPerforms.read handed
  obtain ⟨_, _, samePath, laterEligible⟩ := laterPerforms.read looked
  have sameUrl := digest_of_path lawful samePath
  rw [first.normalize_url ports, later.normalize_url ports] at sameUrl
  refine ⟨?_, sameUrl, ?_⟩
  · rw [firstEligible.method, laterEligible.method]
  · rw [noBody firstEligible, alsoNone laterEligible]

/-- Two requests are relayed as they were, and the one is answered from what the other stored only
when they are the same, if and only if neither is looked up with a body. -/
theorem relays_iff (lawful : crates.Lawful) (ports : crates.DropsDefaultPorts)
    (proxy other : Proxy) (first later : Exchange crates) :
    Relayed proxy first ∧ Relayed other later ∧ SameRequest proxy other first later ↔
      (first.Eligible proxy → first.body = []) ∧ (later.Eligible other → later.body = []) := by
  rw [relayed_iff, relayed_iff, ← and_assoc]
  exact and_iff_left_of_imp fun both => sameRequest_of_empty lawful ports both.1 both.2

end Relay

theorem exampleCrates_ports : exampleCrates.DropsDefaultPorts := by
  intro text url parsed
  simp only [exampleCrates, Crates.ofSamples] at parsed
  cases found : exampleSamples.urls.lookup text with
  | none =>
    rw [found] at parsed
    cases parsed
  | some known =>
    rw [found] at parsed
    cases parsed
    obtain rfl := (Prod.mk.inj (List.mem_singleton.mp (lookup_mem found))).2
    decide

def ACCEPT : HeaderName := ⟨"accept", by decide⟩

/-- What a client may send along: two lines of one name, whom the request is for, what is meant for
the proxy alone, and the encodings it can read. -/
def clientHeaders : HeaderMap :=
  [(.HOST, ⟨utf8 "example.com", by decide⟩), (ACCEPT, TEXT_PLAIN),
    (⟨"proxy-connection", by decide⟩, ⟨utf8 "keep-alive", by decide⟩),
    (⟨"te", by decide⟩, ⟨utf8 "trailers", by decide⟩),
    (.ACCEPT_ENCODING, ⟨utf8 "gzip", by decide⟩), (ACCEPT, ⟨utf8 "*/*;q=0.1", by decide⟩)]

/-- A request with these headers for the example's URL. -/
noncomputable def clientExchange (method : Method) (body : Bytes) : Exchange exampleCrates where
  request := ⟨method, ⟨some ⟨"example.com", none⟩, "/a", some "/a", "https://example.com/a"⟩,
    clientHeaders⟩
  tunnel_authority := none
  routed both := Bool.noConfusion both.2
  url := exampleUrl
  parsed := rfl
  body := body

/-- A `GET` is relayed with both its lines, and so is a `POST` with its body; another client's `GET`
is answered from the entry of the first. -/
theorem relays_clientExchange :
    (Relayed exampleProxy (clientExchange .GET []) ∧
      Relayed exampleProxy (clientExchange .POST (utf8 "q")) ∧
      SameRequest exampleProxy exampleProxy (clientExchange .GET [])
        (clientExchange .POST (utf8 "q"))) ∧
    (Relayed exampleProxy (clientExchange .GET []) ∧ Relayed exampleProxy (exampleExchange []) ∧
      SameRequest exampleProxy exampleProxy (clientExchange .GET []) (exampleExchange [])) ∧
    relayedValues .fetcher clientHeaders ACCEPT =
      [TEXT_PLAIN, ⟨utf8 "*/*;q=0.1", by decide⟩] ∧
    relayedValues .fetcher clientHeaders .ACCEPT_ENCODING = [IDENTITY] ∧
    relayedValues .forwarder clientHeaders .HOST = [] := by
  have posted : ¬ (clientExchange .POST (utf8 "q")).Eligible exampleProxy := by
    intro eligible
    cases eligible.method
  refine ⟨?_, ?_, by decide, by decide, by decide⟩
  · exact (relays_iff exampleCrates_lawful exampleCrates_ports exampleProxy exampleProxy
      (clientExchange .GET []) (clientExchange .POST (utf8 "q"))).mpr
        ⟨fun _ => rfl, fun eligible => absurd eligible posted⟩
  · exact (relays_iff exampleCrates_lawful exampleCrates_ports exampleProxy exampleProxy
      (clientExchange .GET []) (exampleExchange [])).mpr ⟨fun _ => rfl, fun _ => rfl⟩

/-- The body of a `GET` never reaches the upstream server. -/
theorem body_dropped :
    ¬ ∀ (crates : Crates), crates.Lawful → crates.DropsDefaultPorts →
      ∀ (proxy other : Proxy) (first later : Exchange crates),
      Relayed proxy first ∧ Relayed other later ∧ SameRequest proxy other first later := by
  intro always
  obtain ⟨relayed, _⟩ := always exampleCrates exampleCrates_lawful exampleCrates_ports exampleProxy
    exampleProxy (exampleExchange (utf8 "q")) (exampleExchange (utf8 "q"))
  have empty := (relayed_iff (exampleExchange (utf8 "q"))).mp relayed (exampleExchange_eligible _)
  exact absurd empty (by decide)

end Cicache
