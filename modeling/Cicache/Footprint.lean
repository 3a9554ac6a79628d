/-
This file says which actions the tasks of a job can come to perform. Two kinds of task differ from
the rest: reading the manifest and finishing an upload add keys to the index, and one control
endpoint reads the statistics. All others are plain.
-/

import Cicache.System

namespace Cicache

open Text Interleaving

/-- The actions of a request that is not served from the cache, and of a connection. -/
def Forwarding : Act → Prop
  | .collect | .send_request _ _ _ _ _ | .elapsed | .record _ _ _ _ _ | .summary => True
  | .store flag => flag = .shutdown
  | .spawn_tunnel _ _ | .upgrade | .accept_tls _ | .connect _ _ | .copy_bidirectional => True
  | _ => False

/-- The actions of a call to the service. -/
def Asking : Act → Prop
  | .load flag | .store flag => flag = .exhausted
  | .post _ _ _ | .put_blob _ _ | .get_blob _ | .now => True
  | _ => False

/-- The actions of looking an object up and of unpacking. -/
def Retrieving : Act → Prop
  | .insert set _ => set = .remote_misses ∨ set = .packed
  | .load flag | .store flag => flag = .exhausted
  | .contains _ _ | .read _ | .write_begin _ _ | .write_end _ _ => True
  | .post _ _ _ | .put_blob _ _ | .get_blob _ | .now => True
  | _ => False

/-- The actions of storing an object. -/
def Queueing : Act → Prop
  | .insert set _ => set = .queued ∨ set = .packed
  | .store flag => flag = .pack_dirty
  | .write_begin _ _ | .write_end _ _ | .clone_sender | .send _ => True
  | _ => False

/-- The actions of the upload loop. -/
def Draining : Act → Prop
  | .recv | .acquire | .spawn _ | .join_uploads => True
  | _ => False

/-- The actions on files, on the service and on the pack. -/
def Calling : Act → Prop
  | .insert set _ => set = .remote_misses ∨ set = .packed
  | .load flag => flag ≠ .shutdown
  | .store flag => flag = .exhausted
  | .contains _ _ | .read _ | .write_begin _ _ | .write_end _ _ => True
  | .iter set => set = .packed
  | .post _ _ _ | .put_blob _ _ | .get_blob _ | .now | .record_packed _ _ => True
  | _ => False

/-- The actions of the store, but for what reading the manifest and finishing an upload do. -/
def Filing : Act → Prop
  | .insert set _ => set ≠ .index
  | .load flag | .store flag => flag ≠ .shutdown
  | .contains _ _ | .iter _ | .read _ | .write_begin _ _ | .write_end _ _ => True
  | .clone_sender | .send _ | .take_sender | .recv | .take_uploader | .join_uploader => True
  | .acquire | .spawn _ | .join_uploads | .post _ _ _ | .put_blob _ _ | .get_blob _ => True
  | .now | .record_packed _ _ => True
  | _ => False

/-- The actions that neither read the statistics or the shutdown flag nor add to the index. -/
def Plain (action : Act) : Prop :=
  action ≠ .summary ∧ action ≠ .load .shutdown ∧ ∀ key, action ≠ .insert .index key

/-- The actions of what passes the store by: they raise no flag either. -/
structure Passing (action : Act) : Prop where
  forwarding : Forwarding action
  plain : Plain action
  raises : ∀ flag, action ≠ .store flag

/-- Whether a request that arrives outside any tunnel asks for the statistics. -/
def ClientRequest.asksStatistics (request : ClientRequest) : Bool :=
  request.method ≠ .CONNECT && request.uri.authority.isNone &&
    request.uri.path = "/__cicache/stats"

theorem Plain.not_insert {action : Act} (plain : Plain action) (key : String) :
    action ≠ .insert .index key := plain.2.2 key

theorem Asking.retrieving {action : Act} (asking : Asking action) : Retrieving action := by
  cases action with
  | load flag => exact asking
  | store flag => exact asking
  | _ => trivial

theorem Retrieving.calling {action : Act} (retrieving : Retrieving action) : Calling action := by
  cases action with
  | insert set key => exact retrieving
  | load flag => exact retrieving ▸ nofun
  | store flag => exact retrieving
  | _ => trivial

theorem Asking.calling {action : Act} (asking : Asking action) : Calling action :=
  asking.retrieving.calling

theorem Queueing.filing {action : Act} (queueing : Queueing action) : Filing action := by
  cases action with
  | insert set key => rcases queueing with rfl | rfl <;> exact nofun
  | store flag => exact queueing ▸ nofun
  | _ => trivial

theorem Draining.filing {action : Act} (draining : Draining action) : Filing action := by
  cases action with
  | _ => trivial

theorem Calling.filing {action : Act} (calling : Calling action) : Filing action := by
  cases action with
  | insert set key => rcases calling with rfl | rfl <;> exact nofun
  | load flag => exact calling
  | store flag => exact calling ▸ nofun
  | _ => trivial

theorem Filing.plain {action : Act} (filing : Filing action) : Plain action := by
  refine ⟨?_, ?_, fun key => ?_⟩
  · rintro rfl
    exact filing
  · rintro rfl
    exact filing rfl
  · rintro rfl
    exact filing rfl

theorem Calling.plain {action : Act} (calling : Calling action) : Plain action :=
  calling.filing.plain

theorem yields_within {Result : Type} {allowed : Act → Prop} {program : Task Result}
    (within : program.Within allowed) (wrap : Result → Value) :
    (yields program wrap).Within allowed := within.bind fun _ => trivial

/-! ### The store -/

theorem write_within {allowed : Act → Prop} {path : String} {bytes : Bytes}
    (begins : allowed (.write_begin path bytes)) (ends : allowed (.write_end path bytes)) :
    (write path bytes).Within allowed := by
  refine .act begins fun opened => ?_
  cases opened with
  | false => exact trivial
  | true => exact .act ends fun _ => trivial

section Service

variable (crates : Crates) (gha : GhaCache)

theorem rpc_asking {Response : Type} (method : String) (request : Request)
    (from_str : String → Option Response) :
    (gha.rpc crates method request from_str).Within Asking := by
  unfold GhaCache.rpc
  refine .act trivial fun reply => ?_
  cases reply with
  | none => exact trivial
  | some reply =>
    dsimp only
    split
    · exact .act rfl fun _ => trivial
    · split
      · exact trivial
      · split <;> exact trivial

theorem fetch_asking (key : String) (restore_keys : List String) :
    (gha.fetch crates key restore_keys).Within Asking := by
  unfold GhaCache.fetch
  refine .act rfl fun exhausted => ?_
  split
  · exact trivial
  · refine (rpc_asking crates gha _ _ _).bind fun answered => ?_
    cases answered with
    | error err => exact trivial
    | ok response =>
      dsimp only
      split
      · exact trivial
      · refine .act trivial fun downloaded => ?_
        cases downloaded with
        | none => exact trivial
        | some answer =>
          dsimp only
          split
          · exact trivial
          · split <;> exact trivial

theorem put_asking (key : String) (data : Bytes) :
    (gha.put crates key data).Within Asking := by
  unfold GhaCache.put
  refine .act rfl fun exhausted => ?_
  split
  · exact trivial
  · refine (rpc_asking crates gha _ _ _).bind fun answered => ?_
    cases answered with
    | error err =>
      dsimp only
      split <;> exact trivial
    | ok create =>
      dsimp only
      split
      · exact trivial
      · refine .act trivial fun uploaded => ?_
        cases uploaded with
        | none => exact trivial
        | some status =>
          dsimp only
          split
          · exact trivial
          · refine (rpc_asking crates gha _ _ _).bind fun finalized => ?_
            cases finalized <;> exact trivial

theorem put_scoped_asking (run key_prefix scope kind : String) (body : Bytes) :
    (gha.put_scoped crates run key_prefix scope kind body).Within Asking :=
  .act trivial fun _ => put_asking crates gha _ _

theorem fetch_calling (key : String) (restore_keys : List String) :
    (gha.fetch crates key restore_keys).Within Calling :=
  (fetch_asking crates gha key restore_keys).mono fun _ => Asking.calling

theorem put_calling (key : String) (data : Bytes) : (gha.put crates key data).Within Calling :=
  (put_asking crates gha key data).mono fun _ => Asking.calling

theorem put_scoped_calling (run key_prefix scope kind : String) (body : Bytes) :
    (gha.put_scoped crates run key_prefix scope kind body).Within Calling :=
  (put_scoped_asking crates gha run key_prefix scope kind body).mono fun _ => Asking.calling

end Service

section Objects

variable (crates : Crates) (store : Store)

theorem unpack_retrieving (objects : List Pack.Object) :
    (store.unpack objects).Within Retrieving := by
  induction objects with
  | nil => exact trivial
  | cons object rest inductionHypothesis =>
    unfold Store.unpack
    refine (write_within trivial trivial).bind fun written => ?_
    split
    · exact .act (Or.inr rfl) fun _ => inductionHypothesis
    · exact inductionHypothesis

theorem load_pack_retrieving : (store.load_pack crates).Within Retrieving := by
  unfold Store.load_pack
  split
  · exact trivial
  · refine ((fetch_asking crates _ _ _).mono fun _ => Asking.retrieving).bind fun loaded => ?_
    rcases loaded with err | (_ | raw)
    · exact trivial
    · exact trivial
    · dsimp only
      unfold Store.unpack_raw
      split
      · exact (unpack_retrieving store _).bind fun _ => trivial
      · exact trivial
      · exact trivial

theorem load_pack_calling : (store.load_pack crates).Within Calling :=
  (load_pack_retrieving crates store).mono fun _ => Retrieving.calling

theorem gather_calling (keys : List String) : (store.gather keys).Within Calling := by
  induction keys with
  | nil => exact trivial
  | cons key rest inductionHypothesis =>
    unfold Store.gather
    refine .act trivial fun body => ?_
    cases body with
    | none => exact inductionHypothesis
    | some body => exact inductionHypothesis.bind fun _ => trivial

theorem save_pack_calling : (store.save_pack crates).Within Calling := by
  unfold Store.save_pack
  split
  · exact trivial
  · refine .act nofun fun dirty => ?_
    split
    · refine .act rfl fun keys => (gather_calling store _).bind fun objects => ?_
      dsimp only
      split
      · exact trivial
      · refine (put_scoped_calling crates _ _ _ _ _ _).bind fun stored => ?_
        cases stored with
        | error err => exact trivial
        | ok _ => exact .act trivial fun _ => trivial
    · exact trivial

theorem save_index_filing : (store.save_index crates).Within Filing := by
  unfold Store.save_index
  split
  · exact trivial
  · refine .act nofun fun dirty => ?_
    split
    · refine .act trivial fun keys =>
        ((put_scoped_calling crates _ _ _ _ _ _).mono fun _ => Calling.filing).bind fun stored => ?_
      cases stored <;> exact trivial
    · exact trivial

theorem get_retrieving (key : String) : (store.get crates key).Within Retrieving := by
  unfold Store.get
  refine .act trivial fun bytes => ?_
  cases bytes with
  | some bytes => exact trivial
  | none =>
    dsimp only
    split
    · exact trivial
    · refine .act trivial fun known => ?_
      split
      · refine .act trivial fun missed => ?_
        split
        · exact trivial
        · refine ((fetch_asking crates _ _ _).mono fun _ => Asking.retrieving).bind fun fetched =>
            ?_
          rcases fetched with err | (_ | bytes)
          · exact .act (Or.inl rfl) fun _ => trivial
          · exact .act (Or.inl rfl) fun _ => trivial
          · exact (write_within trivial trivial).bind fun _ => trivial
      · exact trivial

theorem get_calling (key : String) : (store.get crates key).Within Calling :=
  (get_retrieving crates store key).mono fun _ => Retrieving.calling

theorem store_put_queueing (key : String) (bytes : Bytes) :
    (store.put key bytes).Within Queueing := by
  unfold Store.put
  refine .act (Or.inl rfl) fun fresh => ?_
  split
  · refine (write_within trivial trivial).bind fun _ => ?_
    split
    · refine .act (Or.inr rfl) fun added => ?_
      split
      · exact ⟨rfl, fun _ => trivial⟩
      · exact trivial
    · refine .act trivial fun cloned => ?_
      split
      · exact ⟨trivial, fun _ => trivial⟩
      · exact trivial
  · exact trivial

theorem store_put_filing (key : String) (bytes : Bytes) :
    (store.put key bytes).Within Filing :=
  (store_put_queueing store key bytes).mono fun _ => Queueing.filing

theorem flush_filing : (store.flush crates).Within Filing := by
  unfold Store.flush
  refine .act trivial fun _ => .act trivial fun handle => ?_
  refine Program.Within.bind ?_ fun _ =>
    (save_index_filing crates store).bind fun _ =>
      (save_pack_calling crates store).mono fun _ => Calling.filing
  unfold Store.await_uploader
  split
  · exact ⟨trivial, fun _ => trivial⟩
  · exact trivial

theorem upload_round_draining : store.upload_round.Within Draining := by
  unfold Store.upload_round
  refine .act trivial fun item => ?_
  cases item with
  | none => exact .act trivial fun _ => trivial
  | some item =>
    dsimp only
    split
    · exact trivial
    · exact .act trivial fun _ => .act trivial fun _ => trivial

theorem upload_round_filing : store.upload_round.Within Filing :=
  (upload_round_draining store).mono fun _ => Draining.filing

/-- Reading the manifest adds keys to the index besides. -/
theorem load_index_within {allowed : Act → Prop}
    (asking : ∀ action, Asking action → allowed action)
    (inserts : ∀ key, allowed (.insert .index key)) : (store.load_index crates).Within allowed := by
  have learns : ∀ keys, (Store.learn keys).Within allowed := by
    intro keys
    induction keys with
    | nil => exact trivial
    | cons key rest inductionHypothesis => exact .act (inserts key) fun _ => inductionHypothesis
  unfold Store.load_index
  split
  · exact trivial
  · refine ((fetch_asking crates _ _ _).mono asking).bind fun loaded => ?_
    rcases loaded with err | (_ | raw)
    · exact trivial
    · exact trivial
    · exact learns _

/-- An upload adds its key to the index, counts itself and gives its permit back besides. -/
theorem upload_within {allowed : Act → Prop}
    (asking : ∀ action, Asking action → allowed action)
    (inserts : ∀ key, allowed (.insert .index key)) (dirties : allowed (.store .index_dirty))
    (counts : ∀ bytes ok, allowed (.record_upload bytes ok)) (drops : allowed .drop_permit)
    (gha : GhaCache) (key : String) (bytes : Bytes) :
    (Store.upload crates gha key bytes).Within allowed := by
  have finishes : (do
      if ← act (.insert .index key) then
        act (.store .index_dirty)
        act .drop_permit
      else act .drop_permit : Task Unit).Within allowed := by
    refine .act (inserts key) fun added => ?_
    split
    · exact .act dirties fun _ => ⟨drops, fun _ => trivial⟩
    · exact ⟨drops, fun _ => trivial⟩
  unfold Store.upload
  refine ((put_asking crates gha _ _).mono asking).bind fun stored => ?_
  rcases stored with err | (_ | _)
  · exact .act (counts _ _) fun _ => ⟨drops, fun _ => trivial⟩
  · exact finishes
  · exact .act (counts _ _) fun _ => finishes

end Objects

/-! ### The proxy -/

theorem forward_passes (method : Method) (url : Url) (headers : HeaderMap) (body : Bytes)
    (reject : Reject) : (Proxy.forward method url headers body reject).Within Passing := by
  unfold Proxy.forward
  refine .act ⟨trivial, ⟨nofun, nofun, nofun⟩, nofun⟩ fun answer => ?_
  cases answer with
  | error err => exact trivial
  | ok response =>
    refine .act ⟨trivial, ⟨nofun, nofun, nofun⟩, nofun⟩ fun _ => ?_
    exact .act ⟨trivial, ⟨nofun, nofun, nofun⟩, nofun⟩ fun _ => trivial

theorem serve_tunnel_passes (proxy : Proxy) (host : String) (port : UInt16) :
    (proxy.serve_tunnel host port).Within Passing := by
  unfold Proxy.serve_tunnel
  refine .act ⟨trivial, ⟨nofun, nofun, nofun⟩, nofun⟩ fun upgraded => ?_
  cases upgraded with
  | error err => exact trivial
  | ok _ =>
    dsimp only
    split
    · refine .act ⟨trivial, ⟨nofun, nofun, nofun⟩, nofun⟩ fun accepted => ?_
      cases accepted <;> exact trivial
    · refine .act ⟨trivial, ⟨nofun, nofun, nofun⟩, nofun⟩ fun _ => ?_
      refine .act ⟨trivial, ⟨nofun, nofun, nofun⟩, nofun⟩ fun connected => ?_
      cases connected with
      | error err => exact trivial
      | ok _ => exact .act ⟨trivial, ⟨nofun, nofun, nofun⟩, nofun⟩ fun _ => trivial

theorem connect_passes (uri : Uri) : (Proxy.connect uri).Within Passing := by
  unfold Proxy.connect
  split
  · exact trivial
  · exact .act ⟨trivial, ⟨nofun, nofun, nofun⟩, nofun⟩ fun _ => trivial

/-- What a request for a URL ends with, once it has been handled. -/
theorem proxied_within_of_handle {allowed : Act → Prop} (crates : Crates) (proxy : Proxy)
    (request : ClientRequest) (tunnel_authority : Option String)
    (handles : ∀ url, (proxy.handle crates request.method request.headers url).Within allowed)
    (records : ∀ outcome method url bytes millis,
      allowed (.record outcome method url bytes millis)) :
    (proxy.proxied crates request tunnel_authority).Within allowed := by
  unfold Proxy.proxied
  split
  · exact trivial
  · refine (handles _).bind fun result => ?_
    cases result with
    | ok response => exact trivial
    | error message => exact .act (records _ _ _ _ _) fun _ => trivial

theorem lookup_retrieving (crates : Crates) (proxy : Proxy) (key : String) :
    (proxy.lookup crates key).Within Retrieving := by
  unfold Proxy.lookup
  refine (get_retrieving _ _ _).bind fun raw => ?_
  cases raw with
  | none => exact trivial
  | some raw =>
    dsimp only
    split <;> exact trivial

theorem lookup_calling (crates : Crates) (proxy : Proxy) (key : String) :
    (proxy.lookup crates key).Within Calling :=
  (lookup_retrieving crates proxy key).mono fun _ => Retrieving.calling

theorem store_response_plain (crates : Crates) (proxy : Proxy) (url : Url)
    (status : StatusCode) (headers : HeaderMap) (body : Bytes) (key : String) :
    (proxy.store_response crates url status headers body key).Within Plain := by
  unfold Proxy.store_response
  split
  · refine .act ⟨nofun, nofun, nofun⟩ fun stored_at => ?_
    split
    · exact ((store_put_filing _ _ _).mono fun _ => Filing.plain).bind fun _ => trivial
    · exact trivial
  · exact trivial

theorem fetch_and_store_plain (crates : Crates) (proxy : Proxy) (method : Method) (url : Url)
    (client_headers : HeaderMap) (key : String) :
    (proxy.fetch_and_store crates method url client_headers key).Within Plain := by
  unfold Proxy.fetch_and_store
  refine .act ⟨nofun, nofun, nofun⟩ fun answer => ?_
  cases answer with
  | error err => exact trivial
  | ok response =>
    dsimp only
    split
    · exact .act ⟨nofun, nofun, nofun⟩ fun _ => .act ⟨nofun, nofun, nofun⟩ fun _ => trivial
    · split
      · exact trivial
      · exact .act ⟨nofun, nofun, nofun⟩ fun _ => (store_response_plain _ _ _ _ _ _ _).bind fun _ =>
          .act ⟨nofun, nofun, nofun⟩ fun _ => trivial

theorem handle_plain (crates : Crates) (proxy : Proxy) (method : Method)
    (client_headers : HeaderMap) (url : Url) :
    (proxy.handle crates method client_headers url).Within Plain := by
  unfold Proxy.handle
  refine .act ⟨nofun, nofun, nofun⟩ fun collected => ?_
  cases collected with
  | error err => exact trivial
  | ok body =>
    dsimp only
    split
    · exact (forward_passes _ _ _ _ _).mono fun _ => Passing.plain
    · refine Program.Within.bind ?_ fun found => ?_
      · exact (lookup_calling crates proxy _).mono fun _ => Calling.plain
      · cases found with
        | some entry => exact .act ⟨nofun, nofun, nofun⟩ fun _ => trivial
        | none => exact fetch_and_store_plain _ _ _ _ _ _

/-- A request that does not ask for the statistics is plain. -/
theorem dispatch_plain (crates : Crates) (proxy : Proxy) (request : ClientRequest)
    (tunnel_authority : Option String)
    (asks : tunnel_authority = none → request.asksStatistics = false) :
    (proxy.dispatch crates request tunnel_authority).Within Plain := by
  unfold Proxy.dispatch
  by_cases connects : tunnel_authority = none ∧ request.method = .CONNECT
  · rw [if_pos connects]
    exact (connect_passes _).mono fun _ => Passing.plain
  · rw [if_neg connects]
    by_cases controls : tunnel_authority = none ∧ request.uri.authority.isNone
    · have other : request.uri.path ≠ "/__cicache/stats" := by
        intro path
        have method : request.method ≠ .CONNECT := fun same => connects ⟨controls.1, same⟩
        have asked : request.asksStatistics = true := by
          simp [ClientRequest.asksStatistics, method, path, Option.isNone_iff_eq_none.mp controls.2]
        rw [asks controls.1] at asked
        cases asked
      rw [if_pos controls]
      unfold Proxy.control
      rw [if_neg other]
      split
      · exact trivial
      · split
        · exact .act ⟨nofun, nofun, nofun⟩ fun _ => trivial
        · exact trivial
    · rw [if_neg controls]
      exact proxied_within_of_handle crates proxy _ _ (handle_plain crates proxy _ _)
        fun _ _ _ _ _ => ⟨nofun, nofun, nofun⟩

/-- A request that asks for the statistics does nothing else. -/
theorem dispatch_asks (crates : Crates) (proxy : Proxy) {request : ClientRequest}
    (asks : request.asksStatistics = true) :
    (proxy.dispatch crates request none).Within fun action => action = .summary := by
  simp only [ClientRequest.asksStatistics, Bool.and_eq_true, decide_eq_true_eq] at asks
  obtain ⟨⟨method, origin⟩, path⟩ := asks
  unfold Proxy.dispatch
  rw [if_neg fun both => method both.2, if_pos ⟨rfl, origin⟩, path]
  exact ⟨rfl, fun _ => trivial⟩

/-- The actions of a request. -/
def Requesting (action : Act) : Prop :=
  Forwarding action ∨ Retrieving action ∨ Queueing action ∨
    ∃ url status headers body, action = .build_entry url status headers body

theorem Forwarding.requesting {action : Act} (forwarding : Forwarding action) :
    Requesting action := Or.inl forwarding

theorem Retrieving.requesting {action : Act} (retrieving : Retrieving action) : Requesting action :=
  Or.inr (Or.inl retrieving)

theorem Queueing.requesting {action : Act} (queueing : Queueing action) : Requesting action :=
  Or.inr (Or.inr (Or.inl queueing))

theorem fetch_and_store_requesting (crates : Crates) (proxy : Proxy) (method : Method) (url : Url)
    (client_headers : HeaderMap) (key : String) :
    (proxy.fetch_and_store crates method url client_headers key).Within Requesting := by
  have stores : ∀ status headers body,
      (proxy.store_response crates url status headers body key).Within Requesting := by
    intro status headers body
    unfold Proxy.store_response
    split
    · refine .act (Or.inr (Or.inr (Or.inr ⟨_, _, _, _, rfl⟩))) fun stored_at => ?_
      split
      · exact ((store_put_queueing _ _ _).mono fun _ => Queueing.requesting).bind fun _ => trivial
      · exact trivial
    · exact trivial
  unfold Proxy.fetch_and_store
  refine .act (Or.inl trivial) fun answer => ?_
  cases answer with
  | error err => exact trivial
  | ok response =>
    dsimp only
    split
    · exact .act (Or.inl trivial) fun _ => .act (Or.inl trivial) fun _ => trivial
    · split
      · exact trivial
      · exact .act (Or.inl trivial) fun _ => (stores _ _ _).bind fun _ =>
          .act (Or.inl trivial) fun _ => trivial

theorem dispatch_requesting (crates : Crates) (proxy : Proxy) (request : ClientRequest)
    (tunnel_authority : Option String) :
    (proxy.dispatch crates request tunnel_authority).Within Requesting := by
  unfold Proxy.dispatch
  split
  · exact (connect_passes _).mono fun _ passes => passes.1.requesting
  · split
    · unfold Proxy.control
      split
      · exact trivial
      · split
        · exact .act (Or.inl trivial) fun _ => trivial
        · split
          · exact .act (Or.inl rfl) fun _ => trivial
          · exact trivial
    · refine proxied_within_of_handle crates proxy _ _ (fun url => ?_) fun _ _ _ _ _ =>
        Or.inl trivial
      unfold Proxy.handle
      refine .act (Or.inl trivial) fun collected => ?_
      cases collected with
      | error err => exact trivial
      | ok body =>
        dsimp only
        split
        · exact (forward_passes _ _ _ _ _).mono fun _ passes => passes.1.requesting
        · refine ((lookup_retrieving crates proxy _).mono fun _ => Retrieving.requesting).bind
            fun found => ?_
          cases found with
          | some entry => exact .act (Or.inl trivial) fun _ => trivial
          | none => exact fetch_and_store_requesting _ _ _ _ _ _

/-- A call that neither reads the manifest nor flushes has the footprint of a request. -/
theorem call_requesting {crates : Crates} {proxy : Proxy} {arrival : Arrival} {program : Task Value}
    (called : Job.call crates proxy arrival = some program) (loads : arrival ≠ .load_index)
    (flushes : arrival ≠ .flush) : program.Within Requesting := by
  cases arrival with
  | load_index => exact absurd rfl loads
  | load_pack =>
    cases called
    exact (yields_within (load_pack_retrieving crates _) _).mono fun _ => Retrieving.requesting
  | get key =>
    cases called
    exact (yields_within (get_retrieving crates _ key) _).mono fun _ => Retrieving.requesting
  | put key bytes =>
    cases called
    exact (yields_within (store_put_queueing _ key bytes) _).mono fun _ => Queueing.requesting
  | flush => exact absurd rfl flushes
  | request request tunnel_authority =>
    cases called
    exact yields_within (dispatch_requesting crates proxy request tunnel_authority) _
  | tunnel => cases called
  | upload => cases called

/-- A call is plain unless it reads the manifest or asks for the statistics. -/
theorem call_plain {crates : Crates} {proxy : Proxy} {arrival : Arrival} {program : Task Value}
    (called : Job.call crates proxy arrival = some program) (loads : arrival ≠ .load_index)
    (asks : ∀ request, arrival = .request request none → request.asksStatistics = false) :
    program.Within Plain := by
  cases arrival with
  | load_index => exact absurd rfl loads
  | load_pack =>
    cases called
    exact (yields_within (load_pack_calling crates _) _).mono fun _ => Calling.plain
  | get key =>
    cases called
    exact (yields_within (get_calling crates _ key) _).mono fun _ => Calling.plain
  | put key bytes =>
    cases called
    exact (yields_within (store_put_filing _ key bytes) _).mono fun _ => Filing.plain
  | flush =>
    cases called
    exact (yields_within (flush_filing crates _) _).mono fun _ => Filing.plain
  | request request tunnel_authority =>
    cases called
    refine yields_within (dispatch_plain crates proxy request _ ?_) _
    rintro rfl
    exact asks request rfl
  | tunnel => cases called
  | upload => cases called

end Cicache
