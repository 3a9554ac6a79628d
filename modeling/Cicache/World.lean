/-
This file models what the program's tasks share and the atomic actions they perform on it: the
concurrent sets and flags of the store, the local files, the upload queue, the cache service, the
upstream servers and the clock.

The program does not decide how an action on the outside world ends. A `Choice` says what the
environment does there, and `World.exec` performs one action under one choice; it is undefined
where the action blocks, or where the choice is none the environment can make. The service's own
state is kept beside its answers, so that a service may be assumed to be honest, to succeed or
neither.
-/

import Cicache.Http
import Cicache.Policy
import Cicache.Lib.Program

namespace Cicache

open Text Interleaving

/-! ### Names for what is shared -/

/-- The concurrent sets of a store. -/
inductive KeySet where
  | remote_misses
  | queued
  | index
  | packed
  deriving DecidableEq

/-- The atomic flags, all of which start out false and are only ever set. -/
inductive Flag where
  | index_dirty
  | pack_dirty
  | exhausted
  | shutdown
  deriving DecidableEq

/-- The tasks of a job: calls into the store or the proxy, the connections behind a `CONNECT`,
the upload loop, and the uploads it spawns. -/
inductive TaskId where
  | call (number : Nat)
  | tunnel (number : Nat)
  | uploader
  | upload (number : Nat)
  deriving DecidableEq

/-- A key and its bytes on their way to the service. -/
abbrev Item := String × Bytes

/-! ### The cache service -/

/-- The requests of the cache service's protocol. -/
inductive Request where
  | CreateCacheEntry (key version : String)
  | FinalizeCacheEntryUpload (key version size_bytes : String)
  | GetCacheEntryDownloadURL (key version : String) (restore_keys : List String)
  deriving DecidableEq

/-- An HTTP answer with its body as text. -/
structure Reply where
  status : StatusCode
  text : String
  deriving DecidableEq

/-- What the service does on a request, apart from answering it. -/
inductive Effect where
  | nothing
  | reserve (url key : String)
  | commit (item : Item)
  | offer (url : String) (item : Item)
  deriving DecidableEq

/-- The service: the calls it was sent with its answers, the upload URLs it handed out and for
which key, the bytes that arrived at them, the entries it holds, oldest first, and the download
URLs it handed out and for which entry. -/
structure Service where
  calls : List (Request × Option Reply)
  reserved : List (String × String)
  blobs : List (String × Bytes)
  entries : List Item
  offers : List (String × Item)

namespace Service

/-- A service nothing was ever stored in. -/
def empty : Service := ⟨[], [], [], [], []⟩

def apply (service : Service) : Effect → Service
  | .nothing => service
  | .reserve url key => { service with reserved := service.reserved ++ [(url, key)] }
  | .commit item => { service with entries := service.entries ++ [item] }
  | .offer url item => { service with offers := service.offers ++ [(url, item)] }

/-- The service after a call. -/
def answer (service : Service) (request : Request) (reply : Option Reply) (effect : Effect) :
    Service :=
  { service.apply effect with calls := service.calls ++ [(request, reply)] }

end Service

/-! ### Upstream servers and statistics -/

/-- An upstream answer: its status, its headers, the length it declares, and its body, which may
break off with an error. -/
structure Upstream where
  status : StatusCode
  headers : HeaderMap
  content_length : Option Nat
  body : Except String Bytes

/-- The two clients requests are sent upstream with; the fetcher follows redirects when it is
told to, the forwarder never does. -/
inductive Client where
  | fetcher
  | forwarder
  deriving DecidableEq

/-- The outcome recorded for one proxied request. -/
inductive Outcome where
  | Hit
  | Stored
  | Miss (reason : String)
  | Pass (reason : String)
  | Error (reason : String)
  deriving DecidableEq

/-! The counters of `Stats` are a `Summary` that every recorded request advances. -/

namespace Summary

def default : Summary := ⟨0, 0, 0, 0, 0, 0, 0, 0, 0, 0, 0, 0, 0, 0⟩

/-- The counters `Stats::record` advances. -/
def record (stats : Summary) (outcome : Outcome) (bytes millis : Nat) : Summary :=
  let stats := { stats with requests := stats.requests + 1 }
  match outcome with
  | .Hit =>
      { stats with
        hits := stats.hits + 1
        bytes_from_cache := stats.bytes_from_cache + bytes }
  | .Stored =>
      { stats with
        misses := stats.misses + 1
        stored := stats.stored + 1
        bytes_from_network := stats.bytes_from_network + bytes
        upstream_millis := stats.upstream_millis + millis }
  | .Miss _ =>
      { stats with
        misses := stats.misses + 1
        bytes_from_network := stats.bytes_from_network + bytes
        upstream_millis := stats.upstream_millis + millis }
  | .Pass _ =>
      { stats with
        passthrough := stats.passthrough + 1
        bytes_from_network := stats.bytes_from_network + bytes }
  | .Error _ => { stats with errors := stats.errors + 1 }

def record_upload (stats : Summary) (bytes : Nat) (ok : Bool) : Summary :=
  if ok then
    { stats with
      entries_stored := stats.entries_stored + 1
      bytes_uploaded := stats.bytes_uploaded + bytes }
  else { stats with uploads_failed := stats.uploads_failed + 1 }

def record_packed (stats : Summary) (objects bytes : Nat) : Summary :=
  { stats with packed := objects, packed_bytes := bytes }

end Summary

/-! ### Actions -/

/-- The atomic actions. -/
inductive Act where
  /-- `DashSet::insert`, `DashSet::contains` and iterating over the whole set. -/
  | insert (set : KeySet) (key : String)
  | contains (set : KeySet) (key : String)
  | iter (set : KeySet)
  /-- Reading a flag, and setting it. -/
  | load (flag : Flag)
  | store (flag : Flag)
  /-- Reading a file; the start and the end of writing one. -/
  | read (path : String)
  | write_begin (path : String) (bytes : Bytes)
  | write_end (path : String) (bytes : Bytes)
  /-- The sending side of the queue: cloning the sender, sending through a clone and dropping it,
  and taking the sender away. -/
  | clone_sender
  | send (item : Item)
  | take_sender
  /-- The receiving side. -/
  | recv
  /-- Taking the handle of the upload loop, and waiting for it. -/
  | take_uploader
  | join_uploader
  /-- A permit of the upload loop's semaphore, a task of its own for one item, giving the permit
  back at the end of that task, and waiting for all of them. -/
  | acquire
  | spawn (item : Item)
  | drop_permit
  | join_uploads
  /-- A call to the service, and the transfers to and from blob storage. -/
  | post (url token : String) (request : Request)
  | put_blob (url : String) (data : Bytes)
  | get_blob (url : String)
  /-- The seconds since the epoch, and the milliseconds since a request was sent. -/
  | now
  | elapsed
  /-- The call of `Entry::new`, which reads the clock. -/
  | build_entry (url : String) (status : UInt16) (headers : HeaderMap) (body : Bytes)
  | record (outcome : Outcome) (method url : String) (bytes millis : Nat)
  | record_upload (bytes : Nat) (ok : Bool)
  | record_packed (objects bytes : Nat)
  | summary
  /-- Reading a request's body, and sending a request upstream. -/
  | collect
  | send_request (client : Client) (method : Method) (url : String) (headers : HeaderMap)
      (body : Option Bytes)
  /-- A `CONNECT`: the task of its own, the upgrade, terminating TLS against the run's own CA,
  connecting to the server and copying in both directions. -/
  | spawn_tunnel (host : String) (port : UInt16)
  | upgrade
  | accept_tls (host : String)
  | connect (host : String) (port : UInt16)
  | copy_bidirectional

/-- What an action answers. -/
@[reducible] def Answer : Act → Type
  | .insert _ _ => Bool
  | .contains _ _ => Bool
  | .iter _ => List String
  | .load _ => Bool
  | .store _ => Unit
  | .read _ => Option Bytes
  | .write_begin _ _ => Bool
  | .write_end _ _ => Bool
  | .clone_sender => Bool
  | .send _ => Unit
  | .take_sender => Unit
  | .recv => Option Item
  | .take_uploader => Bool
  | .join_uploader => Unit
  | .acquire => Unit
  | .spawn _ => Unit
  | .drop_permit => Unit
  | .join_uploads => Unit
  | .post _ _ _ => Option Reply
  | .put_blob _ _ => Option StatusCode
  | .get_blob _ => Option (StatusCode × Option Bytes)
  | .now => Nat
  | .elapsed => Nat
  | .build_entry _ _ _ _ => Nat
  | .record _ _ _ _ _ => Unit
  | .record_upload _ _ => Unit
  | .record_packed _ _ => Unit
  | .summary => Summary
  | .collect => Except String Bytes
  | .send_request _ _ _ _ _ => Except String Upstream
  | .spawn_tunnel _ _ => Unit
  | .upgrade => Except String Unit
  | .accept_tls _ => Except String Unit
  | .connect _ _ => Except String Unit
  | .copy_bidirectional => Except String Unit

/-- A task's program. -/
abbrev Task := Program Act Answer

/-- The program of one action. -/
abbrev act (action : Act) : Task (Answer action) := Program.act action

/-- What the environment does on an action whose end the program does not decide. -/
inductive Choice where
  | quiet
  | listing (keys : List String)
  | contents (bytes : Option Bytes)
  | opened (ok : Bool)
  | written (left : Option Bytes)
  | replied (reply : Option Reply) (effect : Effect)
  | uploaded (status : Option StatusCode) (arrived : Bool)
  | downloaded (answer : Option (StatusCode × Option Bytes))
  | clock (time : Nat)
  | collected (body : Except String Bytes)
  | upstream (answer : Except String Upstream)
  | connection (result : Except String Unit)

/-! ### The state -/

/-- A file: the bytes it holds, if it is there, and the bytes being written to it. A write that ends
leaves its own bytes there, also while another one is under way. -/
structure File where
  content : Option Bytes
  writing : List Bytes

/-- The arguments of a call of `Entry::new` and the time it read. -/
structure Built where
  url : String
  status : UInt16
  headers : HeaderMap
  body : Bytes
  stored_at : Nat

/-- Everything the tasks of a job share. `sender` and `uploader` say whether the store still has
its sender and the handle of the upload loop, `clones` counts the other senders alive; `spawned`
are the uploads that were spawned, each with its number, and `running` those that have not
finished. `built` lists the calls of `Entry::new` so far. -/
structure World where
  sets : KeySet → Finset String
  flags : Flag → Bool
  files : String → File
  sender : Bool
  clones : Nat
  queue : List Item
  uploader : Bool
  uploader_done : Bool
  permits : Nat
  uploads : Nat
  spawned : List (Nat × Item)
  running : List Nat
  tunnels : List (Nat × String × UInt16)
  stats : Summary
  built : List Built
  service : Service

/-- The longest path the system accepts. -/
def PATH_MAX : Nat := 4096

/-- The system can name the file: the path and its final zero byte fit. -/
def isName (path : String) : Bool := (utf8 path).length < PATH_MAX

/-- A buffer the language can hold: at most `isize::MAX` bytes. -/
def fits (bytes : Bytes) : Bool := bytes.length < 2 ^ 63

namespace World

def setFile (world : World) (path : String) (file : File) : World :=
  { world with files := Function.update world.files path file }

/-- Adding a key to a set. -/
def addKey (world : World) (set : KeySet) (key : String) : World :=
  { world with sets := Function.update world.sets set (insert key (world.sets set)) }

/-- Adding keys to a set. -/
def addKeys (world : World) (set : KeySet) (keys : Finset String) : World :=
  { world with sets := Function.update world.sets set (world.sets set ∪ keys) }

/-- Setting a flag. -/
def raise (world : World) (flag : Flag) : World :=
  { world with flags := Function.update world.flags flag true }

@[simp] theorem setFile_self (world : World) (path : String) (file : File) :
    (world.setFile path file).files path = file := Function.update_self ..

theorem setFile_of_ne {path other : String} (different : other ≠ path) (world : World)
    (file : File) : (world.setFile path file).files other = world.files other :=
  Function.update_of_ne different ..

@[simp] theorem addKey_self (world : World) (set : KeySet) (key : String) :
    (world.addKey set key).sets set = insert key (world.sets set) := Function.update_self ..

theorem addKey_of_ne {set other : KeySet} (different : other ≠ set) (world : World)
    (key : String) : (world.addKey set key).sets other = world.sets other :=
  Function.update_of_ne different ..

@[simp] theorem addKeys_self (world : World) (set : KeySet) (keys : Finset String) :
    (world.addKeys set keys).sets set = world.sets set ∪ keys := Function.update_self ..

theorem addKeys_of_ne {set other : KeySet} (different : other ≠ set) (world : World)
    (keys : Finset String) : (world.addKeys set keys).sets other = world.sets other :=
  Function.update_of_ne different ..

theorem addKeys_empty (world : World) (set : KeySet) : world.addKeys set ∅ = world := by
  rw [addKeys, Finset.union_empty, Function.update_eq_self]

/-- Adding one key before others is adding them together. -/
theorem addKeys_addKey (world : World) (set : KeySet) (key : String) (keys : Finset String) :
    (world.addKey set key).addKeys set keys = world.addKeys set (insert key keys) := by
  rw [addKeys, addKey_self, addKey, addKeys, Function.update_idem, Finset.insert_union,
    Finset.union_insert]

@[simp] theorem raise_self (world : World) (flag : Flag) : (world.raise flag).flags flag = true :=
  Function.update_self ..

theorem raise_of_ne {flag other : Flag} (different : other ≠ flag) (world : World) :
    (world.raise flag).flags other = world.flags other := Function.update_of_ne different ..

/-- What reading a file may see: nothing, what it holds, or a beginning of what is being written
to it. -/
def Readable (world : World) (path : String) (result : Option Bytes) : Prop :=
  match result with
  | none => True
  | some bytes => isName path = true ∧ fits bytes = true ∧
      (bytes ∈ (world.files path).content ∨ ∃ whole ∈ (world.files path).writing, bytes <+: whole)

instance (world : World) (path : String) (result : Option Bytes) :
    Decidable (world.Readable path result) :=
  match result with
  | none => inferInstanceAs (Decidable True)
  | some _ => inferInstanceAs (Decidable (_ ∧ _ ∧ _))

/-- One action of a task under a choice of the environment. -/
def exec (id : TaskId) (action : Act) (choice : Choice) (world : World) :
    Option (Answer action × World) :=
  match action with
  | .insert set key => some (decide (key ∉ world.sets set), world.addKey set key)
  | .contains set key => some (decide (key ∈ world.sets set), world)
  | .iter set =>
      match choice with
      | .listing keys =>
          if keys.Nodup ∧ keys.toFinset = world.sets set then some (keys, world) else none
      | _ => none
  | .load flag => some (world.flags flag, world)
  | .store flag => some ((), world.raise flag)
  | .read path =>
      match choice with
      | .contents result => if world.Readable path result then some (result, world) else none
      | _ => none
  | .write_begin path bytes =>
      match choice with
      | .opened true =>
          if isName path then
            some (true, world.setFile path
              { world.files path with writing := bytes :: (world.files path).writing })
          else none
      | .opened false => some (false, world)
      | _ => none
  | .write_end path bytes =>
      let writing := (world.files path).writing.erase bytes
      match choice with
      | .written none => some (true, world.setFile path ⟨some bytes, writing⟩)
      | .written (some left) =>
          if left <+: bytes then some (false, world.setFile path ⟨some left, writing⟩) else none
      | _ => none
  | .clone_sender =>
      if world.sender then some (true, { world with clones := world.clones + 1 })
      else some (false, world)
  | .send item =>
      some ((), { world with queue := world.queue ++ [item], clones := world.clones - 1 })
  | .take_sender => some ((), { world with sender := false })
  | .recv =>
      match world.queue with
      | item :: rest => some (some item, { world with queue := rest })
      | [] => if world.sender = false ∧ world.clones = 0 then some (none, world) else none
  | .take_uploader => some (world.uploader, { world with uploader := false })
  | .join_uploader => if world.uploader_done then some ((), world) else none
  | .acquire =>
      if 0 < world.permits then some ((), { world with permits := world.permits - 1 }) else none
  | .spawn item =>
      some ((), { world with
        uploads := world.uploads + 1
        spawned := world.spawned ++ [(world.uploads, item)]
        running := world.running ++ [world.uploads] })
  | .drop_permit =>
      match id with
      | .upload number =>
          some ((), { world with
            permits := world.permits + 1
            running := world.running.erase number })
      | _ => none
  | .join_uploads =>
      if world.running = [] then some ((), { world with uploader_done := true }) else none
  | .post _ _ request =>
      match choice with
      | .replied reply effect =>
          some (reply, { world with service := world.service.answer request reply effect })
      | _ => none
  | .put_blob url data =>
      match choice with
      | .uploaded status true =>
          some (status, { world with service :=
            { world.service with blobs := world.service.blobs ++ [(url, data)] } })
      | .uploaded status false => some (status, world)
      | _ => none
  | .get_blob _ =>
      match choice with
      | .downloaded answer =>
          if (answer.bind Prod.snd).all fits then some (answer, world) else none
      | _ => none
  | .now =>
      match choice with
      | .clock time => some (time, world)
      | _ => none
  | .elapsed =>
      match choice with
      | .clock time => some (time, world)
      | _ => none
  | .build_entry url status headers body =>
      match choice with
      | .clock time =>
          some (time, { world with built := world.built ++ [⟨url, status, headers, body, time⟩] })
      | _ => none
  | .record outcome _ _ bytes millis =>
      some ((), { world with stats := world.stats.record outcome bytes millis })
  | .record_upload bytes ok =>
      some ((), { world with stats := world.stats.record_upload bytes ok })
  | .record_packed objects bytes =>
      some ((), { world with stats := world.stats.record_packed objects bytes })
  | .summary => some (world.stats, world)
  | .collect =>
      match choice with
      | .collected body => some (body, world)
      | _ => none
  | .send_request _ _ _ _ _ =>
      match choice with
      | .upstream answer => some (answer, world)
      | _ => none
  | .spawn_tunnel host port =>
      match id with
      | .call number =>
          some ((), { world with tunnels := world.tunnels ++ [(number, host, port)] })
      | _ => none
  | .upgrade =>
      match choice with
      | .connection result => some (result, world)
      | _ => none
  | .accept_tls _ =>
      match choice with
      | .connection result => some (result, world)
      | _ => none
  | .connect _ _ =>
      match choice with
      | .connection result => some (result, world)
      | _ => none
  | .copy_bidirectional =>
      match choice with
      | .connection result => some (result, world)
      | _ => none

end World

end Cicache
