/-
This file models `gha`, the client of the cache service: the three-call protocol that stores an
object, the two-step fetch, and the error texts the one is told apart from the other by.
-/

import Cicache.World

namespace Cicache

open Text Interleaving

def SERVICE : String := "twirp/github.actions.results.api.v1.CacheService"

/-- Distinguishes entry layouts. -/
def ENTRY_FORMAT_VERSION : String := "cicache/entry-v1"

def sha_hex (crates : Crates) (bytes : Bytes) : String := hex (crates.sha256 bytes)

/-- The display of a status code: the number and its reason phrase. -/
def statusText (crates : Crates) (status : StatusCode) : String :=
  Nat.repr status.code.toNat ++ " " ++
    (crates.canonical_reason status.code).getD "<unknown status code>"

/-- Whether a reservation was refused because the entry is already there. -/
def is_already_exists (text : String) : Bool :=
  contains text "409" || contains text "already_exists"

/-- Prefix for one scope's entries of a given kind, so a prefix match finds the newest of them. -/
def scoped_prefix ( key_prefix scope kind : String) : String :=
  key_prefix ++ "-" ++ kind ++ "-" ++ scope ++ "-"

/-- The client; `exhausted` is among the flags of the job. -/
structure GhaCache where
  base : String
  token : String
  version : String

namespace GhaCache

variable (crates : Crates) (gha : GhaCache)

/-- `GhaCache::from_env`, given the two variables the runner exports. -/
def from_env (base token : Option String) : Option GhaCache :=
  match base, token with
  | some base, some token =>
      if base = "" ∨ token = "" then none
      else some
        { base := if base.toList.getLast? = some '/' then base else base ++ "/"
          token := token
          version := sha_hex crates (utf8 ENTRY_FORMAT_VERSION) }
  | _, _ => none

/-- The error text of a call that was answered with a failure. -/
def refusal (method : String) (reply : Reply) : String :=
  method ++ " returned " ++ statusText crates reply.status ++ ": " ++ reply.text

def rpc {Response : Type} (method : String) (request : Request)
    (from_str : String → Option Response) : Task (Except String Response) := do
  match ← act (.post (gha.base ++ SERVICE ++ "/" ++ method) gha.token request) with
  | none => return .error ("calling " ++ method)
  | some reply =>
    if reply.status = .TOO_MANY_REQUESTS then
      act (.store .exhausted)
      return .error (refusal crates method reply)
    else if reply.status.is_success = false then
      return .error (refusal crates method reply)
    else
      match from_str reply.text with
      | some response => return .ok response
      | none => return .error ("decoding " ++ method ++ " response: " ++ reply.text)

/-- What a call that was answered so returns. -/
def received {Response : Type} (method : String) (from_str : String → Option Response) :
    Option Reply → Except String Response
  | none => .error ("calling " ++ method)
  | some reply =>
      if reply.status.is_success = false then .error (refusal crates method reply)
      else
        match from_str reply.text with
        | some response => .ok response
        | none => .error ("decoding " ++ method ++ " response: " ++ reply.text)

/-- A call returns a response when it was answered with success and the text decodes. -/
theorem received_eq_ok {Response : Type} {method : String} {from_str : String → Option Response}
    {reply : Option Reply} {response : Response}
    (decoded : received crates method from_str reply = .ok response) :
    ∃ answer, reply = some answer ∧ answer.status.is_success = true ∧
      from_str answer.text = some response := by
  cases reply with
  | none => cases decoded
  | some answer =>
    simp only [received] at decoded
    split at decoded
    · cases decoded
    · rename_i success
      refine ⟨answer, rfl, Bool.eq_true_of_not_eq_false success, ?_⟩
      cases parsed : from_str answer.text with
      | none => simp [parsed] at decoded
      | some other =>
        simp only [parsed, Except.ok.injEq] at decoded
        rw [decoded]

/-- The answer is a rate limit. -/
def limited (reply : Option Reply) : Bool :=
  reply.any fun reply => reply.status = .TOO_MANY_REQUESTS

/-- A call posts its request, sets the flag on a rate limit, and returns what it received. -/
theorem rpc_eq {Response : Type} (method : String) (request : Request)
    (from_str : String → Option Response) :
    gha.rpc crates method request from_str =
      act (.post (gha.base ++ SERVICE ++ "/" ++ method) gha.token request) >>= fun reply =>
        if limited reply = true then
          act (.store .exhausted) >>= fun _ => .finish (received crates method from_str reply)
        else .finish (received crates method from_str reply) := by
  unfold rpc
  congr 1
  funext reply
  cases reply with
  | none => rfl
  | some reply =>
    by_cases tooMany : reply.status = .TOO_MANY_REQUESTS
    · have failed : reply.status.is_success = false := tooMany ▸ by decide
      rw [if_pos (show limited (some reply) = true from decide_eq_true tooMany)]
      simp only [if_pos tooMany, received, if_pos failed]
      rfl
    · rw [if_neg (show ¬ limited (some reply) = true from fun found =>
        tooMany (of_decide_eq_true found))]
      simp only [if_neg tooMany, received]
      split
      · rfl
      · split <;> rfl

def fetch (key : String) (restore_keys : List String) : Task (Except String (Option Bytes)) := do
  if ← act (.load .exhausted) then return .ok none
  else
    match ← gha.rpc crates "GetCacheEntryDownloadURL"
        (.GetCacheEntryDownloadURL key gha.version restore_keys) crates.downloadResponse with
    | .error err => return .error err
    | .ok response =>
      if response.ok = false ∨ response.signed_download_url = "" then return .ok none
      else
        match ← act (.get_blob response.signed_download_url) with
        | none => return .error "downloading cache blob"
        | some (status, body) =>
          if status.is_success = false then
            return .error ("download for " ++ key ++ " returned " ++ statusText crates status ++
              " despite the service offering it")
          else
            match body with
            | none => return .error "reading cache blob"
            | some bytes => return .ok (some bytes)

/-- Fetches a previously stored object, or nothing if no entry matches. -/
def get (key : String) : Task (Except String (Option Bytes)) := gha.fetch crates key []

/-- Fetches the newest entry of a kind this job wrote on an earlier run. -/
def get_scoped ( key_prefix scope kind : String) : Task (Except String (Option Bytes)) :=
  let restore := scoped_prefix key_prefix scope kind
  gha.fetch crates restore [restore]

/-- Stores an object. Returns `false` when the service declines the reservation. -/
def put (key : String) (data : Bytes) : Task (Except String Bool) := do
  if ← act (.load .exhausted) then return .ok false
  else
    match ← gha.rpc crates "CreateCacheEntry" (.CreateCacheEntry key gha.version)
        crates.createResponse with
    | .error err => if is_already_exists err then return .ok false else return .error err
    | .ok create =>
      if create.ok = false ∨ create.signed_upload_url = "" then return .ok false
      else
        match ← act (.put_blob create.signed_upload_url data) with
        | none => return .error "uploading cache blob"
        | some status =>
          if status.is_success = false then
            return .error ("blob upload returned " ++ statusText crates status)
          else
            match ← gha.rpc crates "FinalizeCacheEntryUpload"
                (.FinalizeCacheEntryUpload key gha.version (Nat.repr data.length))
                crates.finalizeUploadResponse with
            | .error err => return .error err
            | .ok finalize => return .ok finalize.ok

/-- The key of one run's entry of a kind. -/
def scoped_key ( key_prefix scope kind : String) (stamp : Nat) (run : String) : String :=
  scoped_prefix key_prefix scope kind ++ Nat.repr stamp ++ "-" ++ run

/-- Writes an entry of a kind for this job, under a key unique to the run. -/
def put_scoped (run key_prefix scope kind : String) (body : Bytes) : Task (Except String Bool) := do
  let stamp ← act .now
  gha.put crates (scoped_key key_prefix scope kind stamp run) body

end GhaCache

end Cicache
