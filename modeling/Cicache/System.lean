/-
This file puts a job together: the calls into its store and its proxy, the connections behind a
`CONNECT`, the upload loop and the uploads it spawns run as the tasks of one machine, in any
order. A job starts with nothing in memory and on disk, and with the service as earlier jobs
left it.
-/

import Cicache.Lib.Machine
import Cicache.Proxy

namespace Cicache

open Text Interleaving

/-- What may start a task: a call into the store, a request to the proxy, and the beginning of a
task that another task spawned. -/
inductive Arrival where
  | load_index
  | load_pack
  | get (key : String)
  | put (key : String) (bytes : Bytes)
  | flush
  | request (request : ClientRequest) (tunnel_authority : Option String)
  | tunnel
  | upload

/-- What a task ends with. -/
inductive Value where
  | done
  | loaded (result : Return Unit)
  | object (bytes : Option Bytes)
  | response (response : Response)
  | tunnelled (authority : Option String)
  | round (again : Bool)

/-- A program whose result is wrapped. -/
def yields {Result : Type} (program : Task Result) (wrap : Result → Value) : Task Value :=
  program >>= fun result => .finish (wrap result)

namespace Job

variable (crates : Crates) (proxy : Proxy)

/-- The program of a call. -/
def call : Arrival → Option (Task Value)
  | .load_index => some (yields (proxy.store.load_index crates) fun _ => .done)
  | .load_pack => some (yields (proxy.store.load_pack crates) .loaded)
  | .get key => some (yields (proxy.store.get crates key) .object)
  | .put key bytes => some (yields (proxy.store.put key bytes) fun _ => .done)
  | .flush => some (yields (proxy.store.flush crates) fun _ => .done)
  | .request request tunnel_authority =>
      some (yields (proxy.dispatch crates request tunnel_authority) .response)
  | .tunnel => none
  | .upload => none

/-- Starts the task of an arrival. -/
def accept (id : TaskId) (arrival : Arrival) (world : World) : Option (Task Value × World) :=
  match id, arrival with
  | .call _, arrival => (call crates proxy arrival).map fun program => (program, world)
  | .tunnel number, .tunnel =>
      (world.tunnels.lookup number).map fun (host, port) =>
        (yields (proxy.serve_tunnel host port) .tunnelled, world)
  | .upload number, .upload =>
      match world.spawned.lookup number, proxy.store.gha with
      | some (key, bytes), some gha =>
          some (yields (Store.upload crates gha key bytes) fun _ => .done, world)
      | _, _ => none
  | _, _ => none

/-- What an arrival starts: a call, the connection behind an earlier `CONNECT`, or an upload that
was spawned. -/
theorem accept_cases {id : TaskId} {arrival : Arrival} {before after : World}
    {program : Task Value}
    (result : accept crates proxy id arrival before = some (program, after)) :
    (∃ number, id = .call number ∧ call crates proxy arrival = some program ∧ after = before) ∨
    (∃ number host port, id = .tunnel number ∧ before.tunnels.lookup number = some (host, port) ∧
      program = yields (proxy.serve_tunnel host port) .tunnelled ∧ after = before) ∨
    (∃ number key bytes gha, id = .upload number ∧
      before.spawned.lookup number = some (key, bytes) ∧
      proxy.store.gha = some gha ∧
      program = yields (Store.upload crates gha key bytes) (fun _ => .done) ∧
      after = before) := by
  cases id with
  | call number =>
    obtain ⟨started, called, same⟩ := Option.map_eq_some_iff.mp result
    cases same
    exact Or.inl ⟨number, rfl, called, rfl⟩
  | tunnel number =>
    cases arrival <;> simp only [accept] at result <;> try cases result
    obtain ⟨⟨host, port⟩, opened, same⟩ := Option.map_eq_some_iff.mp result
    cases same
    exact Or.inr (Or.inl ⟨number, host, port, rfl, opened, rfl, rfl⟩)
  | uploader => cases arrival <;> cases result
  | upload number =>
    cases arrival <;> simp only [accept] at result <;> try cases result
    split at result
    · rename_i key bytes gha waiting client
      cases result
      exact Or.inr (Or.inr ⟨number, key, bytes, gha, rfl, waiting, client, rfl, rfl⟩)
    · cases result

/-- The upload loop goes round until its queue is closed. -/
def again (id : TaskId) (value : Value) : Option (Task Value) :=
  match id, value with
  | .uploader, .round true => some (yields proxy.store.upload_round .round)
  | _, _ => none

/-- The machine of a job. -/
def machine : Machine Act Answer TaskId World Choice Arrival Value where
  exec := World.exec
  again := again proxy
  accept := accept crates proxy

/-- What a new job shares. -/
def fresh (service : Service) (built : List Built) : World where
  sets _ := ∅
  flags _ := false
  files _ := ⟨none, []⟩
  sender := true
  clones := 0
  queue := []
  uploader := true
  uploader_done := false
  permits := max proxy.store.config.concurrency 1
  uploads := 0
  spawned := []
  running := []
  tunnels := []
  stats := .default
  built := built
  service := service

/-- The tasks over a shared state, when only the upload loop is running. -/
def idle (world : World) : Config Act Answer TaskId World Value where
  shared := world
  tasks id := match id with
    | .uploader => some (yields proxy.store.upload_round .round)
    | _ => none

end Job

/-! ### What the environment may do -/

/-- The actions that are possible when the environment keeps to some rule. -/
def World.Acts (permitted : TaskId → World → Act → Choice → Prop) (id : TaskId) (action : Act)
    (before : World) (answer : Answer action) (after : World) : Prop :=
  ∃ choice, permitted id before action choice ∧
    World.exec id action choice before = some (answer, after)

/-- Every action in flight keeps to the rule, and so does every arrival. -/
def Permits (permitted : TaskId → World → Act → Choice → Prop)
    (welcome : World → TaskId → Arrival → Prop)
    (config : Config Act Answer TaskId World Value) : Event TaskId Choice Arrival → Prop
  | .run id choice => ∀ action next, config.tasks id = some (.perform action next) →
      permitted id config.shared action choice
  | .arrive id arrival => welcome config.shared id arrival

/-- An action leaves the open connections as they are, or is the opening of one. -/
theorem exec_tunnels {id : TaskId} {action : Act} {choice : Choice} {before after : World}
    {answer : Answer action} (result : World.exec id action choice before = some (answer, after)) :
    after.tunnels = before.tunnels ∨ ∃ number host port, id = .call number ∧
      action = .spawn_tunnel host port ∧
        after.tunnels = before.tunnels ++ [(number, host, port)] := by
  cases action with
  | spawn_tunnel host port =>
    simp only [World.exec] at result
    split at result
    · cases result
      exact Or.inr ⟨_, host, port, rfl, rfl, rfl⟩
    · cases result
  | _ =>
    refine Or.inl ?_
    simp only [World.exec] at result
    (repeat' split at result) <;> cases result <;> rfl

/-- Iterating over a set lists it. -/
theorem listed_of_iter {id : TaskId} {set : KeySet} {choice : Choice} {before after : World}
    {keys : List String} (result : World.exec id (.iter set) choice before = some (keys, after)) :
    keys.toFinset = before.sets set := by
  cases choice with
  | listing told =>
    simp only [World.exec] at result
    split at result
    · rename_i listed
      cases result
      exact listed.2
    · cases result
  | _ => cases result

/-- What is read could be read. -/
theorem readable_of_read {id : TaskId} {path : String} {choice : Choice} {before after : World}
    {found : Option Bytes}
    (result : World.exec id (.read path) choice before = some (found, after)) :
    before.Readable path found := by
  cases choice with
  | contents told =>
    simp only [World.exec] at result
    split at result
    · rename_i readable
      cases result
      exact readable
    · cases result
  | _ => cases result

/-- What the upload loop takes was in the queue. -/
theorem mem_queue_of_recv {id : TaskId} {choice : Choice} {before after : World} {item : Item}
    (result : World.exec id .recv choice before = some (some item, after)) :
    item ∈ before.queue := by
  simp only [World.exec] at result
  split at result
  · rename_i first rest waiting
    cases result
    exact waiting ▸ List.mem_cons_self
  · split at result <;> cases result

/-- One more action of a task, under a rule of the environment. -/
theorem reaches_acted {crates : Crates} {proxy : Proxy}
    {permitted : TaskId → World → Act → Choice → Prop} {welcome : World → TaskId → Arrival → Prop}
    {start before : Config Act Answer TaskId World Value}
    (reached : (Job.machine crates proxy).Reaches (Permits permitted welcome) start before)
    (id : TaskId) (choice : Choice) (action : Act) {next : Answer action → Task Value}
    {answer : Answer action} {shared : World}
    (task : before.tasks id = some (.perform action next))
    (result : World.exec id action choice before.shared = some (answer, shared))
    (rule : permitted id before.shared action choice) :
    (Job.machine crates proxy).Reaches (Permits permitted welcome) start
      ⟨shared, Function.update before.tasks id (some (next answer))⟩ := by
  refine reached.acted id choice action task result fun other next' found => ?_
  rw [task] at found
  cases found
  exact rule

/-! ### One job -/

/-- A store in the directory of a runner's job. -/
def exampleStore : Store where
  objects := "/tmp/cicache/objects"
  isDirectory := by decide
  gha := some ⟨"https://results.example/", "token", "version"⟩
  config := ⟨"t", "job", 4194304, 268435456, 8⟩
  run := "1"
  build := .release

/-- A proxy that intercepts the port of HTTPS and bypasses no host beyond the usual ones. -/
def exampleProxy : Proxy where
  policy := ⟨0, 1048576, 3600, false, false, [], "t"⟩
  store := exampleStore
  mitm_ports := [443]

end Cicache
