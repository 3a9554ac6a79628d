/-
This file compares the two responses a stored URL gets: the one built from the upstream answer on
the miss that stores it, and the one replayed from the stored entry on a later hit.

An entry records its headers as text. A header value that is not visible ASCII has no text, so it
is left out of the entry, and the replayed response lacks a header the first one had. Values of
visible ASCII all survive, in their order, so the two responses agree exactly when no other value
is among the headers that both would carry.
-/

import Cicache.Proxy

namespace Cicache

open Text

/-- Two responses with the same status, the same body and, for every header but the cache's own,
the same values in the same order. -/
def Agrees (hit miss : Response) : Prop :=
  hit.status = miss.status ∧ hit.body = miss.body ∧
    ∀ name, name ≠ HeaderName.X_CICACHE → hit.headers.get_all name = miss.headers.get_all name

/-- Whether a header of the upstream answer reaches the client as it was received: it is neither
scoped to the hop nor set by the proxy. -/
def PassedOn (name : HeaderName) : Prop :=
  HOP_BY_HOP.contains name.text = false ∧ name ≠ .HOST ∧ name ≠ .CONTENT_LENGTH ∧
    name ≠ .X_CICACHE

/-! ### The headers of a built response -/

theorem get_all_insert_cache_header (headers : HeaderMap) (cache : String) {name : HeaderName}
    (other : name ≠ .X_CICACHE) :
    (insert_cache_header headers cache).get_all name = headers.get_all name := by
  unfold insert_cache_header
  split
  · rw [HeaderMap.get_all_insert, if_neg other]
  · rfl

/-- A built response has the headers it was built from, but for the length. -/
theorem get_all_build (status : StatusCode) (headers : HeaderMap) (body : Bytes) (cache : String)
    {name : HeaderName} (other : name ≠ .X_CICACHE) :
    (build status headers body cache).headers.get_all name =
      if name = .CONTENT_LENGTH then (lengthValue body.length).toList
      else headers.get_all name := by
  unfold build
  rw [get_all_insert_cache_header _ _ other]
  cases lengthValue body.length with
  | none =>
    rw [HeaderMap.get_all_remove]
    rfl
  | some value =>
    rw [HeaderMap.get_all_insert, HeaderMap.get_all_remove]
    by_cases length : name = .CONTENT_LENGTH
    · rw [if_pos length, if_pos length]
      rfl
    · rw [if_neg length, if_neg length, if_neg length]

theorem mem_get_all (headers : HeaderMap) (name : HeaderName) (value : HeaderValue) :
    value ∈ headers.get_all name ↔ (name, value) ∈ headers := by
  unfold HeaderMap.get_all
  rw [List.mem_map]
  constructor
  · rintro ⟨header, member, rfl⟩
    obtain ⟨inside, same⟩ := List.mem_filter.mp member
    rw [← of_decide_eq_true same]
    exact inside
  · exact fun member => ⟨(name, value), List.mem_filter.mpr ⟨member, decide_eq_true rfl⟩, rfl⟩

/-- What survives in an entry, name by name: the values that have a text. -/
theorem get_all_survives (headers : HeaderMap) {name : HeaderName}
    (kept : HOP_BY_HOP.contains name.text = false) :
    HeaderMap.get_all (headers.filter Entry.survives) name =
      (headers.get_all name).filter fun value => value.to_str.isSome := by
  induction headers with
  | nil => rfl
  | cons header rest inductionHypothesis =>
    rw [List.filter_cons, HeaderMap.get_all_cons]
    by_cases same : header.1 = name
    · have survives : Entry.survives header = header.2.to_str.isSome := by
        unfold Entry.survives
        rw [same, show Entry.HOP_BY_HOP = HOP_BY_HOP from rfl, kept]
        rfl
      rw [survives, if_pos same, List.filter_cons]
      split
      · rw [HeaderMap.get_all_cons, if_pos same, inductionHypothesis]
      · exact inductionHypothesis
    · rw [if_neg same]
      split
      · rw [HeaderMap.get_all_cons, if_neg same, inductionHypothesis]
      · exact inductionHypothesis

theorem mem_sanitize (headers : HeaderMap) (header : HeaderName × HeaderValue) :
    header ∈ sanitize headers ↔ header ∈ headers ∧ HOP_BY_HOP.contains header.1.text = false ∧
      header.1 ≠ .HOST := by
  unfold sanitize
  rw [List.mem_filter, Bool.not_eq_true', Bool.or_eq_false_iff, decide_eq_false_iff_not]

/-! ### A hit and the miss that stored it -/

/-- The response replayed from an entry agrees with the response of the miss that made the entry
exactly when every header value that was passed on is visible ASCII. -/
theorem agrees_new_iff (crates : Crates) (url : String) (status : StatusCode)
    (upstream : HeaderMap) (body : Bytes) (stored_at : Nat) :
    Agrees (replay (Entry.new crates url status.code (sanitize upstream) body stored_at))
        (build status (sanitize upstream) body "MISS") ↔
      ∀ header ∈ upstream, PassedOn header.1 → header.2.bytes.all isVisibleAscii = true := by
  have hitHeaders : ∀ name, name ≠ HeaderName.X_CICACHE →
      HeaderMap.get_all (replay (Entry.new crates url status.code (sanitize upstream) body
        stored_at)).headers name =
      if name = .CONTENT_LENGTH then (lengthValue body.length).toList
      else HeaderMap.get_all ((sanitize upstream).filter Entry.survives) name := by
    intro name other
    unfold replay
    rw [get_all_build _ _ _ _ other, Entry.header_map_new]
    rfl
  constructor
  · rintro ⟨_, _, sameHeaders⟩ header member ⟨notHop, notHost, notLength, notCache⟩
    have same := sameHeaders header.1 notCache
    rw [hitHeaders _ notCache, get_all_build _ _ _ _ notCache, if_neg notLength,
      if_neg notLength, get_all_survives _ notHop, List.filter_eq_self] at same
    refine (HeaderValue.to_str_isSome_iff header.2).mp (same header.2 ?_)
    rw [mem_get_all, mem_sanitize]
    exact ⟨member, notHop, notHost⟩
  · intro visible
    refine ⟨?_, rfl, fun name notCache => ?_⟩
    · change (StatusCode.from_u16 status.code).getD .OK = status
      rw [StatusCode.from_u16_code]
      rfl
    · rw [hitHeaders _ notCache, get_all_build _ _ _ _ notCache]
      by_cases length : name = .CONTENT_LENGTH
      · rw [if_pos length, if_pos length]
      · rw [if_neg length, if_neg length]
        by_cases hop : HOP_BY_HOP.contains name.text = true
        · -- A hop-by-hop name is on neither side.
          have absent : ∀ part : HeaderMap, part ⊆ sanitize upstream → part.get_all name = [] := by
            intro part inside
            refine List.eq_nil_iff_forall_not_mem.mpr fun value member => ?_
            have sanitized := (mem_sanitize _ _).mp (inside ((mem_get_all _ _ _).mp member))
            rw [hop] at sanitized
            exact absurd sanitized.2.1 (by decide)
          exact (absent _ (List.filter_subset_self _)).trans (absent _ (List.Subset.refl _)).symm
        · rw [get_all_survives _ (Bool.not_eq_true _ ▸ hop), List.filter_eq_self]
          intro value member
          rw [mem_get_all, mem_sanitize] at member
          exact (HeaderValue.to_str_isSome_iff value).mpr
            (visible _ member.1 ⟨member.2.1, member.2.2, length, notCache⟩)

/-- Whenever a hit replays what a miss stored, the two responses agree exactly when every header
value that was passed on is visible ASCII. -/
theorem replay_agrees_iff {crates : Crates} (lawful : crates.Lawful) (url : Url)
    (status : StatusCode) (upstream : HeaderMap) (body : Bytes) (stored_at : Nat) {raw : Bytes}
    {entry : Entry crates}
    (stored : (Entry.new crates url.as_str status.code (sanitize upstream) body stored_at).encode =
      some raw)
    (hit : Entry.decode crates raw = .ok entry) :
    Agrees (replay entry) (build status (sanitize upstream) body "MISS") ↔
      ∀ header ∈ upstream, PassedOn header.1 → header.2.bytes.all isVisibleAscii = true := by
  obtain ⟨rfl, _⟩ := Entry.decode_of_prefix lawful stored List.prefix_rfl hit
  exact agrees_new_iff crates url.as_str status upstream body stored_at

/-! ### One stored response -/

/-- A URL that could be asked for. -/
def exampleUrl : Url where
  scheme := "https"
  userinfo := none
  host := some "example.com"
  port := none
  path := "/a"
  query := none
  fragment := none
  isScheme := by decide
  isUserinfo := fun _ none => nomatch none
  isHost := fun _ named => Option.some_inj.mp named ▸ by decide
  noHost := fun bare => nomatch bare
  isPath := by decide
  isQuery := fun _ none => nomatch none

/-- The header of its entry, for the body `x`. -/
def exampleHeader : Header where
  url := "https://example.com/a"
  status := 200
  headers := []
  sha256 := "2d711642b726b04401627ca9fbac32f5c8530fb1903cc4db02258717921a4881"
  stored_at := 1700000000

def exampleJson : Bytes := utf8
  ("\x7b\"url\":\"https://example.com/a\",\"status\":200,\"headers\":[],\"sha256\":" ++
    "\"2d711642b726b04401627ca9fbac32f5c8530fb1903cc4db02258717921a4881\"," ++
    "\"stored_at\":1700000000\x7d")

/-- The bytes a digest is written as. -/
def fromHex : List Char → Bytes
  | high :: low :: rest =>
      let value (digit : Char) : Nat := "0123456789abcdef".toList.idxOf digit
      UInt8.ofNat (16 * value high + value low) :: fromHex rest
  | _ => []

/-- The digests and the text that storing this response takes. -/
def exampleSamples : Samples where
  digests :=
    [(utf8 "x",
      fromHex "2d711642b726b04401627ca9fbac32f5c8530fb1903cc4db02258717921a4881".toList),
    (utf8 "GET\nhttps://example.com/a",
      fromHex "e0ad42054349f2ece2fafb306b91fec1df2d46e7cb57d17acfe22eb954af23a9".toList)]
  texts := [(exampleHeader, exampleJson)]
  creates := []
  finalizes := []
  downloads := []
  urls := [("https://example.com/a", exampleUrl)]

noncomputable def exampleCrates : Crates := .ofSamples exampleSamples

theorem exampleCrates_lawful : exampleCrates.Lawful := Samples.lawful (by decide +kernel)

/-- What storing the response writes, when no header is recorded. -/
def exampleRaw : Bytes :=
  Entry.MAGIC ++ leBytes 4 exampleJson.length ++ exampleJson ++ utf8 "x"

theorem example_stored {headers : HeaderMap} (bare : Entry.recorded headers = []) :
    (Entry.new exampleCrates exampleUrl.as_str StatusCode.OK.code headers (utf8 "x")
        1700000000).encode = some exampleRaw ∧
      Entry.decode exampleCrates exampleRaw = .ok (Entry.new exampleCrates exampleUrl.as_str
        StatusCode.OK.code headers (utf8 "x") 1700000000) := by
  have header : (Entry.new exampleCrates exampleUrl.as_str StatusCode.OK.code headers (utf8 "x")
      1700000000).header = exampleHeader := by
    unfold Entry.new
    rw [bare]
    rfl
  refine Entry.stored_of_text exampleCrates_lawful ?_ (by decide +kernel)
  rw [header]
  rfl

/-- What an upstream may send: a repeated header, a quoted value, headers of the hop, one of them no
text, and the two headers the proxy sets itself. -/
def cookieHeaders : HeaderMap :=
  [(⟨"connection", by decide⟩, ⟨utf8 "close", by decide⟩),
    (CONTENT_TYPE, TEXT_PLAIN),
    (⟨"set-cookie", by decide⟩, ⟨utf8 "a=1; Path=/", by decide⟩),
    (.CONTENT_LENGTH, ⟨utf8 "1", by decide⟩),
    (⟨"keep-alive", by decide⟩, ⟨[0xE9], by decide⟩),
    (⟨"set-cookie", by decide⟩, ⟨utf8 "b=2", by decide⟩),
    (⟨"transfer-encoding", by decide⟩, ⟨utf8 "chunked", by decide⟩),
    (.X_CICACHE, ⟨utf8 "PASS", by decide⟩),
    (⟨"etag", by decide⟩, ⟨utf8 "\"v1\"", by decide⟩)]

/-- The header of its entry, for the body `x`. -/
def cookieHeader : Header where
  url := "https://example.com/a"
  status := 200
  headers := [("content-type", "text/plain"), ("set-cookie", "a=1; Path=/"),
    ("content-length", "1"), ("set-cookie", "b=2"), ("x-cicache", "PASS"), ("etag", "\"v1\"")]
  sha256 := "2d711642b726b04401627ca9fbac32f5c8530fb1903cc4db02258717921a4881"
  stored_at := 1700000000

def cookieJson : Bytes := utf8
  ("\x7b\"url\":\"https://example.com/a\",\"status\":200,\"headers\":[" ++
    "[\"content-type\",\"text/plain\"],[\"set-cookie\",\"a=1; Path=/\"]," ++
    "[\"content-length\",\"1\"],[\"set-cookie\",\"b=2\"],[\"x-cicache\",\"PASS\"]," ++
    "[\"etag\",\"\\\"v1\\\"\"]],\"sha256\":" ++
    "\"2d711642b726b04401627ca9fbac32f5c8530fb1903cc4db02258717921a4881\"," ++
    "\"stored_at\":1700000000\x7d")

noncomputable def cookieCrates : Crates :=
  .ofSamples ⟨exampleSamples.digests, [(cookieHeader, cookieJson)], [], [], [],
    exampleSamples.urls⟩

theorem cookieCrates_lawful : cookieCrates.Lawful := Samples.lawful (by decide +kernel)

theorem cookie_stored :
    (Entry.new cookieCrates exampleUrl.as_str StatusCode.OK.code (sanitize cookieHeaders) (utf8 "x")
        1700000000).encode =
          some (Entry.MAGIC ++ leBytes 4 cookieJson.length ++ cookieJson ++ utf8 "x") ∧
      Entry.decode cookieCrates
          (Entry.MAGIC ++ leBytes 4 cookieJson.length ++ cookieJson ++ utf8 "x") =
        .ok (Entry.new cookieCrates exampleUrl.as_str StatusCode.OK.code (sanitize cookieHeaders)
          (utf8 "x") 1700000000) := by
  have recorded : Entry.recorded (sanitize cookieHeaders) = cookieHeader.headers := by
    decide +kernel
  have header : (Entry.new cookieCrates exampleUrl.as_str StatusCode.OK.code
      (sanitize cookieHeaders) (utf8 "x") 1700000000).header = cookieHeader := by
    unfold Entry.new
    rw [recorded]
    rfl
  refine Entry.stored_of_text cookieCrates_lawful ?_ (by decide +kernel)
  rw [header]
  rfl

/-- Its entry is stored and read back, and replayed as the response was sent. -/
theorem replay_agrees_example :
    Agrees (replay (Entry.new cookieCrates exampleUrl.as_str StatusCode.OK.code
        (sanitize cookieHeaders) (utf8 "x") 1700000000))
      (build .OK (sanitize cookieHeaders) (utf8 "x") "MISS") :=
  (replay_agrees_iff cookieCrates_lawful exampleUrl .OK cookieHeaders (utf8 "x") 1700000000
    cookie_stored.1 cookie_stored.2).mpr (by unfold PassedOn; decide)

/-- A file name in Latin-1, as it comes in a `Content-Disposition` header: `é` and no more. -/
def latinName : HeaderName × HeaderValue :=
  (⟨"content-disposition", by decide⟩, ⟨[0xE9], by decide⟩)

/-- A response with such a header is stored, and replayed without it. -/
theorem replay_disagrees :
    ¬ ∀ (crates : Crates), crates.Lawful → ∀ (url : Url) (status : StatusCode)
      (upstream : HeaderMap) (body : Bytes) (stored_at : Nat) (raw : Bytes) (entry : Entry crates),
      (Entry.new crates url.as_str status.code (sanitize upstream) body stored_at).encode =
        some raw → Entry.decode crates raw = .ok entry →
      Agrees (replay entry) (build status (sanitize upstream) body "MISS") := by
  intro always
  have bare : Entry.recorded (sanitize [latinName]) = [] := by decide
  have agrees := always exampleCrates exampleCrates_lawful exampleUrl .OK [latinName] (utf8 "x")
    1700000000 _ _ (example_stored bare).1 (example_stored bare).2
  have visible := (agrees_new_iff exampleCrates exampleUrl.as_str .OK [latinName] (utf8 "x")
    1700000000).mp agrees latinName List.mem_cons_self (by unfold PassedOn; decide)
  exact absurd visible (by decide)

end Cicache
