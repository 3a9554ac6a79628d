/-
This file models `proxy`: how a request is dispatched, looked up, fetched, stored, forwarded or
tunnelled, and how the response to the client is built.
-/

import Cicache.Entry
import Cicache.Store

namespace Cicache

open Text Interleaving

/-- Headers scoped to a single hop, dropped in both directions. -/
def HOP_BY_HOP : List String :=
  ["connection", "keep-alive", "proxy-authenticate", "proxy-authorization", "proxy-connection",
    "te", "trailer", "transfer-encoding", "upgrade"]

/-! ### Requests and responses -/

/-- The authority of a request's URI. -/
structure Authority where
  host : String
  port : Option UInt16

/-- What the program asks of a request's URI: its authority, its path, its path and query, and
its text. -/
structure Uri where
  authority : Option Authority
  path : String
  path_and_query : Option String
  text : String

/-- A client's request, whose body is read when the request is handled. -/
structure ClientRequest where
  method : Method
  uri : Uri
  headers : HeaderMap

/-- A response's body: all of it, or what the upstream server goes on sending. -/
inductive ResBody where
  | full (body : Bytes)
  | stream (body : Except String Bytes)

structure Response where
  status : StatusCode
  headers : HeaderMap
  body : ResBody

/-- The value of a header that gives a length. -/
def lengthValue (length : Nat) : Option HeaderValue := HeaderValue.from_str (Nat.repr length)

def sanitize (headers : HeaderMap) : HeaderMap :=
  headers.filter fun header =>
    !(HOP_BY_HOP.contains header.1.text || header.1 = HeaderName.HOST)

def insert_cache_header (headers : HeaderMap) (cache : String) : HeaderMap :=
  match HeaderValue.from_str cache with
  | some value => headers.insert .X_CICACHE value
  | none => headers

/-- `build`; a length always has a header value, so there is nothing else to insert. -/
def build (status : StatusCode) (headers : HeaderMap) (body : Bytes) (cache : String) : Response :=
  let target := headers.remove .CONTENT_LENGTH
  let target := match lengthValue body.length with
    | some value => target.insert .CONTENT_LENGTH value
    | none => target
  { status := status, headers := insert_cache_header target cache, body := .full body }

def replay {crates : Crates} (entry : Entry crates) : Response :=
  build ((StatusCode.from_u16 entry.header.status).getD .OK) entry.header_map entry.body "HIT"

def stream_response (status : StatusCode) (headers : HeaderMap) (response : Upstream)
    (cache : String) : Response :=
  { status := status
    headers := insert_cache_header headers cache
    body := .stream response.body }

def TEXT_PLAIN : HeaderValue := ⟨utf8 "text/plain", by decide⟩
def APPLICATION_JSON : HeaderValue := ⟨utf8 "application/json", by decide⟩
def CONTENT_TYPE : HeaderName := ⟨"content-type", by decide⟩
def IDENTITY : HeaderValue := ⟨utf8 "identity", by decide⟩

def text (status : StatusCode) (message : String) : Response :=
  { status := status
    headers := [(CONTENT_TYPE, TEXT_PLAIN)]
    body := .full (utf8 (message ++ "\n")) }

def bad_request (message : String) : Response := text .BAD_REQUEST message

def bad_gateway (message : String) : Response := text .BAD_GATEWAY message

/-! ### The proxy -/

structure Proxy where
  policy : Policy
  store : Store
  mitm_ports : List UInt16

/-- `Method::as_str`. -/
def Method.as_str : Method → String
  | .GET => "GET"
  | .HEAD => "HEAD"
  | .POST => "POST"
  | .PUT => "PUT"
  | .DELETE => "DELETE"
  | .OPTIONS => "OPTIONS"
  | .PATCH => "PATCH"
  | .TRACE => "TRACE"
  | .CONNECT => "CONNECT"
  | .extension name => name

/-- Reconstructs the absolute URL a request is for. -/
def absolute_url (crates : Crates) (uri : Uri) (tunnel_authority : Option String) :
    Except String Url :=
  match tunnel_authority with
  | some authority => crates.parseUrl ("https://" ++ authority ++ uri.path_and_query.getD "/")
  | none =>
      match crates.parseUrl uri.text with
      | .ok url => .ok url
      | .error err => .error ("unparsable request URI: " ++ err)

namespace Proxy

variable (crates : Crates) (proxy : Proxy)

/-- Passes a request through untouched, streaming the body in both directions. -/
def forward (method : Method) (url : Url) (client_headers : HeaderMap) (body : Bytes)
    (reject : Reject) : Task (Except String Response) := do
  match ← act (.send_request .forwarder method url.as_str (sanitize client_headers)
    (some body)) with
  | .error err => return .error err
  | .ok response =>
    let elapsed ← act .elapsed
    act (.record (.Pass reject.as_str) method.as_str url.as_str (response.content_length.getD 0)
      elapsed)
    return .ok (stream_response response.status (sanitize response.headers) response "PASS")

/-- Stores what came from upstream when the policy allows it: the outcome to record. -/
def store_response (url : Url) (status : StatusCode) (headers : HeaderMap) (body : Bytes)
    (key : String) : Task Outcome :=
  match proxy.policy.response_storable url status.code headers body.length with
  | .ok () => do
    let stored_at ← act (.build_entry url.as_str status.code headers body)
    match (Entry.new crates url.as_str status.code headers body stored_at).encode with
    | some encoded =>
      proxy.store.put key encoded
      return .Stored
    | none => return .Miss "encode failed"
  | .error reject => return .Miss reject.as_str

def fetch_and_store (method : Method) (url : Url) (client_headers : HeaderMap) (key : String) :
    Task (Except String Response) := do
  let upstream_headers := (sanitize client_headers).insert .ACCEPT_ENCODING IDENTITY
  match ← act (.send_request .fetcher method url.as_str upstream_headers none) with
  | .error err => return .error err
  | .ok response =>
    let headers := sanitize response.headers
    let declared := response.content_length.getD 0
    if declared > proxy.policy.max_size then
      let elapsed ← act .elapsed
      act (.record (.Miss Reject.TooLarge.as_str) method.as_str url.as_str declared elapsed)
      return .ok (stream_response response.status headers response "MISS")
    else
      match response.body with
      | .error err => return .error err
      | .ok body =>
        let elapsed ← act .elapsed
        let outcome ← proxy.store_response crates url response.status headers body key
        act (.record outcome method.as_str url.as_str body.length elapsed)
        return .ok (build response.status headers body "MISS")

/-- The cached entry for a key, when there is one that decodes. -/
def lookup (key : String) : Task (Option (Entry crates)) := do
  match ← proxy.store.get crates key with
  | none => return none
  | some raw =>
    match Entry.decode crates raw with
    | .ok entry => return some entry
    | .error _ => return none

def handle (method : Method) (client_headers : HeaderMap) (url : Url) :
    Task (Except String Response) := do
  match ← act .collect with
  | .error err => return .error err
  | .ok body =>
    match proxy.policy.request_eligible crates method url client_headers with
    | .error reject => forward method url client_headers body reject
    | .ok () =>
      let key := proxy.policy.key crates url
      match ← proxy.lookup crates key with
      | some entry =>
        act (.record .Hit method.as_str url.as_str entry.body.length 0)
        return .ok (replay entry)
      | none => proxy.fetch_and_store crates method url client_headers key

/-- Endpoints for the wrapper steps, reachable only in origin-form directly at the listener. -/
def control (path : String) : Task Response :=
  if path = "/__cicache/ping" then return text .OK "ok"
  else if path = "/__cicache/stats" then do
    let summary ← act .summary
    let body := utf8 (crates.to_string_pretty summary)
    return { status := .OK, headers := [(CONTENT_TYPE, APPLICATION_JSON)], body := .full body }
  else if path = "/__cicache/shutdown" then do
    act (.store .shutdown)
    return text .OK "shutting down"
  else return text .NOT_FOUND "unknown control endpoint"

/-- Answers a `CONNECT`; the connection behind it goes on in a task of its own. -/
def connect (uri : Uri) : Task Response :=
  match uri.authority with
  | none => return bad_request "CONNECT without authority"
  | some authority => do
    act (.spawn_tunnel authority.host (authority.port.getD 443))
    return { status := .OK, headers := [], body := .full [] }

/-- The task behind a `CONNECT`: it terminates TLS on the intercepted ports and otherwise copies
the bytes through. The requests of an intercepted connection arrive with its authority. -/
def serve_tunnel (host : String) (port : UInt16) : Task (Option String) := do
  match ← act .upgrade with
  | .error _ => return none
  | .ok () =>
    if port ∈ proxy.mitm_ports then
      match ← act (.accept_tls host) with
      | .error _ => return none
      | .ok () => return some (if port = 443 then host else host ++ ":" ++ Nat.repr port.toNat)
    else
      act (.record (.Pass "tunnelled port") "CONNECT" (host ++ ":" ++ Nat.repr port.toNat) 0 0)
      match ← act (.connect host port) with
      | .error _ => return none
      | .ok () =>
        let _ ← act .copy_bidirectional
        return none

/-- The part of `dispatch` from the URL on. -/
def proxied (request : ClientRequest) (tunnel_authority : Option String) : Task Response :=
  match absolute_url crates request.uri tunnel_authority with
  | .error err => return bad_request err
  | .ok url => do
    match ← proxy.handle crates request.method request.headers url with
    | .ok response => return response
    | .error message =>
      act (.record (.Error message) "GET" url.as_str 0 0)
      return bad_gateway message

/-- Entry point for every request. `tunnel_authority` is set for requests arriving inside a
decrypted `CONNECT` tunnel. -/
def dispatch (request : ClientRequest) (tunnel_authority : Option String) : Task Response :=
  if tunnel_authority = none ∧ request.method = .CONNECT then connect request.uri
  else if tunnel_authority = none ∧ request.uri.authority.isNone then
    control crates request.uri.path
  else proxy.proxied crates request tunnel_authority

end Proxy

end Cicache
