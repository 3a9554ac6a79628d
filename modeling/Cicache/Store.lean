/-
This file models `store`, the two-level object store: the local directory, the upload queue and
the loop that drains it, and the manifest and the pack that carry a job's objects to the next one.
Every function is the program of the atomic actions it performs, in its order; what it only
prints is left out.
-/

import Cicache.Gha
import Cicache.Pack
import Cicache.Lib.Path

namespace Cicache

open Text Interleaving

/-- How a store files what it caches. -/
structure StoreConfig where
  key_prefix : String
  scope : String
  pack_threshold : Nat
  pack_limit : Nat
  concurrency : Nat

/-- What a store holds apart from what its tasks share: the directory of its objects, its client
of the cache service, its configuration, the run it belongs to (`GITHUB_RUN_ID`), and how the
program was built. -/
structure Store where
  objects : String
  isDirectory : objects ≠ ""
  gha : Option GhaCache
  config : StoreConfig
  run : String
  build : Build

/-- `Vec::sort` on strings, which compares them by code point. -/
def sort (keys : List String) : List String := keys.insertionSort (· ≤ ·)

/-- `tokio::fs::write`: whether it succeeded. -/
def write (path : String) (bytes : Bytes) : Task Bool := do
  if ← act (.write_begin path bytes) then act (.write_end path bytes) else return false

namespace Store

variable (crates : Crates) (store : Store)

def path (key : String) : String := Path.join store.objects key

/-- The key of a file that the system can name is short. -/
theorem length_key {key : String} (named : isName (store.path key) = true) :
    (utf8 key).length < PATH_MAX := by
  obtain ⟨front, ends⟩ := Path.join_ends store.objects key
  have length : (utf8 (store.path key)).length < PATH_MAX := of_decide_eq_true named
  rw [path, ends, utf8_append, List.length_append] at length
  exact (Nat.le_add_left _ _).trans_lt length

/-! ### The pack -/

/-- The loop of `load_pack`. -/
def unpack : List Pack.Object → Task Unit
  | [] => return ()
  | (key, body) :: rest => do
    if ← write (store.path key) body then
      let _ ← act (.insert .packed key)
      unpack rest
    else unpack rest

/-- The part of `load_pack` from the bytes of the pack on. -/
def unpack_raw (raw : Bytes) : Task (Return Unit) :=
  match Pack.decode store.build raw with
  | .ok objects => do
    store.unpack objects
    return .ok ()
  | .err _ => return .ok ()
  | .panicked => return .panicked

/-- Unpacks this job's small objects onto local disk, where the ordinary read path finds them. -/
def load_pack : Task (Return Unit) :=
  match store.gha with
  | none => return .ok ()
  | some gha => do
    match ← gha.get_scoped crates store.config.key_prefix store.config.scope "pack" with
    | .ok (some raw) => store.unpack_raw raw
    | .ok none => return .ok ()
    | .error _ => return .ok ()

/-- The loop of `save_pack`: the packed objects that are on local disk. -/
def gather : List String → Task (List Pack.Object)
  | [] => return []
  | key :: rest => do
    match ← act (.read (store.path key)) with
    | some body =>
      let objects ← gather rest
      return (key, body) :: objects
    | none => gather rest

/-- Rebuilds the pack from what is on local disk and stores it as a single entry. -/
def save_pack : Task Unit :=
  match store.gha with
  | none => return ()
  | some gha => do
    if ← act (.load .pack_dirty) then
      let keys ← act (.iter .packed)
      let objects ← store.gather (sort keys)
      if objects = [] then return ()
      else
        let body := Pack.encode objects store.config.pack_limit
        match ← gha.put_scoped crates store.run store.config.key_prefix store.config.scope "pack"
            body with
        | .ok _ => act (.record_packed objects.length body.length)
        | .error _ => return ()
    else return ()

/-! ### The manifest -/

/-- The lines of a manifest that name a key. -/
def manifestKeys (raw : Bytes) : List String :=
  (lines (fromUtf8Lossy raw)).filter fun line => !isBlank line

/-- The loop of `load_index`. -/
def learn : List String → Task Unit
  | [] => return ()
  | key :: rest => do
    let _ ← act (.insert .index key)
    learn rest

/-- Loads the manifest. -/
def load_index : Task Unit :=
  match store.gha with
  | none => return ()
  | some gha => do
    match ← gha.get_scoped crates store.config.key_prefix store.config.scope "index" with
    | .ok (some raw) => learn (manifestKeys raw)
    | .ok none => return ()
    | .error _ => return ()

/-- The lines of the manifest that lists these keys: sorted and without repetitions. -/
def manifestLines (keys : List String) : List String := (sort keys).destutter (· ≠ ·)

def manifest (keys : List String) : Bytes := utf8 (joinLines (manifestLines keys))

/-- Writes back the manifest: what was already known, plus what this job added. -/
def save_index : Task Unit :=
  match store.gha with
  | none => return ()
  | some gha => do
    if ← act (.load .index_dirty) then
      let keys ← act (.iter .index)
      match ← gha.put_scoped crates store.run store.config.key_prefix store.config.scope "index"
          (manifest keys) with
      | .ok _ => return ()
      | .error _ => return ()
    else return ()

/-! ### Objects -/

def get (key : String) : Task (Option Bytes) := do
  match ← act (.read (store.path key)) with
  | some bytes => return some bytes
  | none =>
    match store.gha with
    | none => return none
    | some gha =>
      if ← act (.contains .index key) then
        if ← act (.contains .remote_misses key) then return none
        else
          match ← gha.get crates key with
          | .ok (some bytes) =>
            let _ ← write (store.path key) bytes
            return some bytes
          | .ok none =>
            let _ ← act (.insert .remote_misses key)
            return none
          | .error _ =>
            let _ ← act (.insert .remote_misses key)
            return none
      else return none

def put (key : String) (bytes : Bytes) : Task Unit := do
  if ← act (.insert .queued key) then
    let _ ← write (store.path key) bytes
    if bytes.length < store.config.pack_threshold then
      if ← act (.insert .packed key) then act (.store .pack_dirty) else return ()
    else
      if ← act .clone_sender then act (.send (key, bytes)) else return ()
  else return ()

def await_uploader (handle : Bool) : Task Unit :=
  if handle then act .join_uploader else return ()

/-- Closes the queue and waits for outstanding uploads, then writes the manifest and the pack. -/
def flush : Task Unit := do
  act .take_sender
  let handle ← act .take_uploader
  await_uploader handle
  store.save_index crates
  store.save_pack crates

/-! ### Uploads -/

/-- One round of `upload_loop`: whether the loop goes on. -/
def upload_round : Task Bool := do
  match ← act .recv with
  | some item =>
    match store.gha with
    | none => return true
    | some _ =>
      act .acquire
      act (.spawn item)
      return true
  | none =>
    act .join_uploads
    return false

/-- The task `upload_loop` spawns for one item. -/
def upload (gha : GhaCache) (key : String) (bytes : Bytes) : Task Unit := do
  match ← gha.put crates key bytes with
  | .ok true =>
    act (.record_upload bytes.length true)
    if ← act (.insert .index key) then
      act (.store .index_dirty)
      act .drop_permit
    else act .drop_permit
  | .ok false =>
    if ← act (.insert .index key) then
      act (.store .index_dirty)
      act .drop_permit
    else act .drop_permit
  | .error _ =>
    act (.record_upload 0 false)
    act .drop_permit

end Store

end Cicache
