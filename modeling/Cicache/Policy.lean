/-
This file models `policy`: which requests are looked up in the cache, which responses may be
stored, and the key a response is stored under.

The one theorem about keys says what they identify: under one prefix, two URLs have the same key
exactly when they are the same URL up to the fragment and a default port, provided the digest
has no collisions.
-/

import Cicache.Crates
import Cicache.Http

namespace Cicache

open Text

/-! ### The tables -/

/-- Hosts that must never be intercepted for caching: the cache service itself and its blob
storage, loopback, and the cloud instance-metadata address. -/
def ALWAYS_BYPASS : List String :=
  ["actions.githubusercontent.com", "blob.core.windows.net",
    "results-receiver.actions.githubusercontent.com", "localhost", "127.0.0.1", "::1",
    "169.254.169.254"]

/-- Host and path shapes that serve build artifacts addressed by version or digest. -/
def IMMUTABLE : List (String × String) :=
  [("registry.npmjs.org", "/-/"), ("registry.yarnpkg.com", "/-/"), ("files.pythonhosted.org", ""),
    ("static.crates.io", ""), ("crates.io", "/download"), ("index.crates.io", ""),
    ("proxy.golang.org", "/@v/"), ("objects.githubusercontent.com", ""),
    ("github.com", "/releases/download/"), ("repo1.maven.org", ""), ("repo.maven.apache.org", ""),
    ("registry-1.docker.io", "/blobs/"), ("production.cloudflare.docker.com", ""),
    ("ghcr.io", "/blobs/"), ("nodejs.org", "/dist/"), ("static.rust-lang.org", ""),
    ("deb.debian.org", ".deb"), ("archive.ubuntu.com", ".deb"), ("security.ubuntu.com", ".deb"),
    ("azure.archive.ubuntu.com", ".deb")]

/-- Query parameters that appear in pre-signed URLs. -/
def SIGNATURE_PARAMS : List String :=
  ["x-amz-signature", "x-goog-signature", "signature", "sig", "token", "se", "sp"]

/-- `hyper::Method`. -/
inductive Method where
  | GET
  | HEAD
  | POST
  | PUT
  | DELETE
  | OPTIONS
  | PATCH
  | TRACE
  | CONNECT
  | extension (name : String)
  deriving DecidableEq

/-- Why a response was not stored, for the request log. -/
inductive Reject where
  | NotGet
  | BypassHost
  | Authorized
  | SignedUrl
  | Status
  | NoStore
  | TooSmall
  | TooLarge
  | NotImmutable
  deriving DecidableEq

def Reject.as_str : Reject → String
  | .NotGet => "not a GET"
  | .BypassHost => "bypassed host"
  | .Authorized => "authenticated request"
  | .SignedUrl => "pre-signed URL"
  | .Status => "non-200 status"
  | .NoStore => "no-store/no-cache/private"
  | .TooSmall => "below min-size"
  | .TooLarge => "above max-size"
  | .NotImmutable => "no immutability signal"

structure Policy where
  min_size : Nat
  max_size : Nat
  min_max_age : Nat
  cache_all : Bool
  cache_authorized : Bool
  extra_bypass : List String
  key_prefix : String

/-! ### Matching -/

/-- Matches a host against a pattern exactly, or as a subdomain of it. -/
def host_matches (host pattern : String) : Bool :=
  let host := utf8 host
  let pattern := utf8 pattern
  host = pattern ||
    (host.length > pattern.length && decide (pattern <:+ host) &&
      host[host.length - pattern.length - 1]? == some 0x2E)

def is_signed_url (crates : Crates) (url : Url) : Bool :=
  match url.query with
  | some query =>
      (crates.queryNames query).any fun name => SIGNATURE_PARAMS.contains (toAsciiLowercase name)
  | none => false

def is_immutable_artifact (url : Url) : Bool :=
  IMMUTABLE.any fun (pattern_host, pattern_path) =>
    host_matches url.host_str pattern_host &&
      (pattern_path.isEmpty || contains url.path pattern_path)

def max_age (cache_control : String) : Option Nat :=
  (((splitOn ',' cache_control).map trim).findSome? fun directive =>
    stripPrefix directive "max-age=").bind parseU64

/-! ### Keys -/

/-- The URL a key is made from: default ports and fragments dropped, everything else verbatim. -/
def normalize (url : Url) : Url :=
  let url := url.dropFragment
  if (url.scheme, url.port) = ("https", some 443) ∨ (url.scheme, url.port) = ("http", some 80) then
    url.dropPort
  else url

namespace Policy

def is_bypassed (policy : Policy) (host : String) : Bool :=
  let host := String.ofList
    ((host.toList.dropWhile fun char => char == '[').rdropWhile fun char => char == ']')
  (ALWAYS_BYPASS ++ policy.extra_bypass).any fun pattern => host_matches host pattern

/-- Whether the request is eligible for a cache lookup at all. -/
def request_eligible (crates : Crates) (policy : Policy) (method : Method) (url : Url)
    (headers : HeaderMap) : Except Reject Unit :=
  if method ≠ .GET then .error .NotGet
  else if policy.is_bypassed url.host_str then .error .BypassHost
  else if !policy.cache_authorized && (headers.contains_key .AUTHORIZATION ||
      headers.contains_key .COOKIE) then .error .Authorized
  else if is_signed_url crates url then .error .SignedUrl
  else .ok ()

/-- Whether an upstream response for an eligible request may be stored. -/
def response_storable (policy : Policy) (url : Url) (status : UInt16) (headers : HeaderMap)
    (len : Nat) : Except Reject Unit :=
  let cache_control := toAsciiLowercase
    (((headers.get .CACHE_CONTROL).bind HeaderValue.to_str).getD "")
  if status ≠ 200 then .error .Status
  else if contains cache_control "no-store" || contains cache_control "no-cache" ||
      contains cache_control "private" then .error .NoStore
  else if len < policy.min_size then .error .TooSmall
  else if len > policy.max_size then .error .TooLarge
  else if policy.cache_all || contains cache_control "immutable" ||
      (max_age cache_control).any (fun age => age ≥ policy.min_max_age) ||
      is_immutable_artifact url then .ok ()
  else .error .NotImmutable

/-- The digest a key ends in. -/
def digest (crates : Crates) (url : Url) : String :=
  hex (crates.sha256 (utf8 "GET\n" ++ utf8 (normalize url).as_str))

/-- Cache key for a request. -/
def key (crates : Crates) (policy : Policy) (url : Url) : String :=
  policy.key_prefix ++ "-" ++ digest crates url

/-- URLs with one digest differ in the fragment and a default port at most. -/
theorem digest_eq_iff {crates : Crates} (lawful : crates.Lawful) (url second : Url) :
    digest crates url = digest crates second ↔ normalize url = normalize second := by
  unfold digest
  constructor
  · intro same
    have texts := List.append_cancel_left (lawful.sha256_injective (hex_injective same))
    exact Url.as_str_injective (utf8_injective texts)
  · intro same
    rw [same]

/-- A key holds no character beyond those of its prefix, the hyphen and the digits. -/
theorem mem_key {crates : Crates} {policy : Policy} {url : Url} {char : Char}
    (member : char ∈ (policy.key crates url).toList) :
    char ∈ policy.key_prefix.toList ∨ char = '-' ∨ isHexDigit char = true := by
  unfold key digest at member
  rw [String.toList_append, String.toList_append, List.mem_append, List.mem_append] at member
  rcases member with (inPrefix | hyphen) | inDigits
  · exact Or.inl inPrefix
  · exact Or.inr (Or.inl (List.mem_singleton.mp hyphen))
  · exact Or.inr (Or.inr (isHexDigit_of_mem_hex inDigits))

/-- A request with credentials is not eligible unless the policy says so. -/
theorem request_eligible_of_credentials {crates : Crates} {policy : Policy}
    (off : policy.cache_authorized = false) {headers : HeaderMap}
    (credentials : headers.contains_key .AUTHORIZATION = true ∨
      headers.contains_key .COOKIE = true) (method : Method) (url : Url) :
    ∃ reject, policy.request_eligible crates method url headers = .error reject := by
  unfold request_eligible
  split
  · exact ⟨_, rfl⟩
  · split
    · exact ⟨_, rfl⟩
    · rw [if_pos (by simpa [off] using credentials)]
      exact ⟨_, rfl⟩

/-- A request to a bypassed host is not eligible. -/
theorem request_eligible_of_bypassed (crates : Crates) {policy : Policy} {url : Url}
    (bypassed : policy.is_bypassed url.host_str = true) (method : Method) (headers : HeaderMap) :
    ∃ reject, policy.request_eligible crates method url headers = .error reject := by
  unfold request_eligible
  rw [if_pos bypassed]
  split
  · exact ⟨_, rfl⟩
  · exact ⟨_, rfl⟩

end Policy

end Cicache
