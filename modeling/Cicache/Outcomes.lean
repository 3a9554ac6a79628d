/-
This file settles what the statistics count. A request may end on many paths: its body cannot be
read, it is replayed, forwarded, fetched and stored, or upstream fails half way. On each of them it
records one outcome, so when all requests are done the counters add up to their number; and what
was recorded tells whether the request was sent upstream and whether an entry was handed over.
-/

import Cicache.Footprint
import Cicache.Lib.History
import Cicache.Replay
import Mathlib.Data.Set.Card

namespace Cicache

open Text Interleaving Program

/-! ### What a task told the statistics -/

/-- What a task performed. -/
abbrev Trail := List (Done Act Answer)

/-- The outcome an action records. -/
def Act.outcome : Act → Option Outcome
  | .record outcome _ _ _ _ => some outcome
  | _ => none

/-- The action sends a request upstream. -/
def Act.sends : Act → Bool
  | .send_request _ _ _ _ _ => true
  | _ => false

/-- The action makes an entry. -/
def Act.builds : Act → Bool
  | .build_entry _ _ _ _ => true
  | _ => false

/-- The outcomes that were recorded. -/
def recorded (trail : Trail) : List Outcome := trail.filterMap fun done => done.action.outcome

/-- An entry was made, encoded, and handed to `Store::put`. -/
def Handed (crates : Crates) (proxy : Proxy) (trail : Trail) : Prop :=
  ∃ url status headers body stored_at encoded key put,
    ⟨.build_entry url status headers body, stored_at⟩ :: put <:+: trail ∧
    (Entry.new crates url status headers body stored_at).encode = some encoded ∧
    (proxy.store.put key encoded).Finishes put ()

/-- The task recorded this outcome and no other, and the outcome is the right one. -/
structure Accounts (crates : Crates) (proxy : Proxy) (trail : Trail) (outcome : Option Outcome) :
    Prop where
  once : recorded trail = outcome.toList
  hit : outcome = some .Hit → ∀ done ∈ trail, done.action.sends = false
  stored : outcome = some .Stored ↔ Handed crates proxy trail

/-- Nothing the statistics or upstream get to know of, and no entry. -/
def Silent (action : Act) : Prop :=
  action.outcome = none ∧ action.sends = false ∧ action.builds = false

theorem Filing.silent {action : Act} (filing : Filing action) : Silent action := by
  refine ⟨?_, ?_, ?_⟩ <;> cases action <;> first | rfl | exact filing.elim

section Accounts

variable {crates : Crates} {proxy : Proxy} {trail : Trail} {outcome : Option Outcome}

theorem handed_cons {done : Done Act Answer} (builds : done.action.builds = false) :
    Handed crates proxy (done :: trail) ↔ Handed crates proxy trail := by
  have later : ∀ url status headers body stored_at (rest : Trail),
      ⟨.build_entry url status headers body, stored_at⟩ :: rest <:+: done :: trail ↔
        ⟨.build_entry url status headers body, stored_at⟩ :: rest <:+: trail := by
    intro url status headers body stored_at rest
    rw [List.infix_cons_iff]
    refine or_iff_right ?_
    intro begins
    rw [← (List.cons_prefix_cons.mp begins).1] at builds
    cases builds
  simp only [Handed, later]

theorem Accounts.nil : Accounts crates proxy [] none := by
  refine ⟨rfl, nofun, nofun, ?_⟩
  rintro ⟨url, status, headers, body, stored_at, encoded, key, put, inside, _⟩
  exact absurd (List.infix_nil.mp inside) (List.cons_ne_nil _ _)

/-- An action that records nothing and makes no entry; it may send a request, but not for a hit. -/
theorem Accounts.cons (accounts : Accounts crates proxy trail outcome) {done : Done Act Answer}
    (quiet : done.action.outcome = none) (builds : done.action.builds = false)
    (sends : outcome = some .Hit → done.action.sends = false) :
    Accounts crates proxy (done :: trail) outcome := by
  refine ⟨?_, fun hit other member => ?_, ?_⟩
  · have skips : recorded (done :: trail) = recorded trail := List.filterMap_cons_none quiet
    rw [skips]
    exact accounts.once
  · rcases List.mem_cons.mp member with rfl | later
    · exact sends hit
    · exact accounts.hit hit other later
  · rw [handed_cons builds]
    exact accounts.stored

theorem Accounts.silent (accounts : Accounts crates proxy trail outcome) {front : Trail}
    (silent : ∀ done ∈ front, Silent done.action) :
    Accounts crates proxy (front ++ trail) outcome := by
  induction front with
  | nil => exact accounts
  | cons done rest inductionHypothesis =>
    obtain ⟨quiet, sends, builds⟩ := silent done List.mem_cons_self
    exact (inductionHypothesis fun other member =>
      silent other (List.mem_cons_of_mem _ member)).cons quiet builds fun _ => sends

/-- The record of an outcome for which nothing was stored. -/
theorem Accounts.record (accounts : Accounts crates proxy trail none) {outcome : Outcome}
    (notStored : outcome ≠ .Stored)
    (sends : outcome = .Hit → ∀ done ∈ trail, done.action.sends = false) (method url : String)
    (bytes millis : Nat) :
    Accounts crates proxy (⟨.record outcome method url bytes millis, ()⟩ :: trail)
      (some outcome) := by
  refine ⟨?_, ?_, ?_⟩
  · have none : recorded trail = [] := accounts.once
    have records : recorded (⟨.record outcome method url bytes millis, ()⟩ :: trail) =
        outcome :: recorded trail := List.filterMap_cons_some rfl
    rw [records, none]
    rfl
  · rintro ⟨⟩ done member
    rcases List.mem_cons.mp member with rfl | later
    · rfl
    · exact sends rfl done later
  · rw [handed_cons rfl]
    refine iff_of_false (fun same => notStored (Option.some_inj.mp same)) ?_
    exact fun handed => absurd (accounts.stored.mpr handed) nofun

/-- A failure is recorded behind what was performed before it. -/
theorem Accounts.fails (accounts : Accounts crates proxy trail none) (message method name : String)
    (bytes millis : Nat) : Accounts crates proxy
      (trail ++ [⟨.record (.Error message) method name bytes millis, ()⟩])
      (some (.Error message)) := by
  refine ⟨?_, nofun, iff_of_false nofun ?_⟩
  · have none : recorded trail = [] := accounts.once
    rw [recorded, List.filterMap_append]
    change recorded trail ++ _ = _
    rw [none]
    rfl
  · rintro ⟨url, status, headers, body, stored_at, encoded, key, put, inside, encoding, puts⟩
    rcases List.infix_concat_iff.mp inside with ends | before
    · obtain ⟨front, joined⟩ := ends
      have last : ⟨.record (.Error message) method name bytes millis, ()⟩ ∈
          (⟨.build_entry url status headers body, stored_at⟩ :: put : Trail) := by
        have lasts := congrArg List.getLast? joined
        rw [List.getLast?_append_of_ne_nil _ (List.cons_ne_nil _ _), List.getLast?_concat] at lasts
        exact List.mem_of_getLast? lasts
      rcases List.mem_cons.mp last with same | member
      · cases same
      · exact (puts.allowed (store_put_filing _ _ _) _ member).elim
    · exact absurd (accounts.stored.mpr ⟨_, _, _, _, _, _, _, _, before, encoding, puts⟩) nofun

end Accounts

/-! ### What each program tells them -/

section Programs

variable (crates : Crates) (proxy : Proxy)

/-- A program that answers has recorded an outcome of the kind; one that fails has recorded none,
and leaves that to its caller. -/
def Tells (kind : Outcome → Prop) (trail : Trail) : Except String Response → Prop
  | .ok _ => ∃ outcome, kind outcome ∧ Accounts crates proxy trail (some outcome)
  | .error _ => Accounts crates proxy trail none

variable {crates : Crates} {proxy : Proxy} {trail : Trail} {result : Except String Response}

theorem Tells.cons {kind : Outcome → Prop} (tells : Tells crates proxy kind trail result)
    {done : Done Act Answer} (quiet : done.action.outcome = none)
    (builds : done.action.builds = false) (sends : kind .Hit → done.action.sends = false) :
    Tells crates proxy kind (done :: trail) result := by
  cases result with
  | error message => exact Accounts.cons tells quiet builds nofun
  | ok response =>
    obtain ⟨outcome, isKind, accounts⟩ := tells
    refine ⟨outcome, isKind, accounts.cons quiet builds ?_⟩
    rintro ⟨⟩
    exact sends isKind

theorem Tells.silent {kind : Outcome → Prop} (tells : Tells crates proxy kind trail result)
    {front : Trail} (silent : ∀ done ∈ front, Silent done.action) :
    Tells crates proxy kind (front ++ trail) result := by
  cases result with
  | error message => exact Accounts.silent tells silent
  | ok response =>
    obtain ⟨outcome, isKind, accounts⟩ := tells
    exact ⟨outcome, isKind, accounts.silent silent⟩

theorem Tells.mono {kind wider : Outcome → Prop} (tells : Tells crates proxy kind trail result)
    (implies : ∀ outcome, kind outcome → wider outcome) :
    Tells crates proxy wider trail result := by
  cases result with
  | error message => exact tells
  | ok response =>
    obtain ⟨outcome, isKind, accounts⟩ := tells
    exact ⟨outcome, implies outcome isKind, accounts⟩

variable (crates proxy)

theorem forward_tells {method : Method} {url : Url} {headers : HeaderMap} {body : Bytes}
    {reject : Reject}
    (ends : (Proxy.forward method url headers body reject).Finishes trail result) :
    Tells crates proxy (· ≠ .Hit) trail result := by
  rw [Proxy.forward, finishes_act] at ends
  obtain ⟨answer, trail, rfl, ends⟩ := ends
  refine Tells.cons ?_ rfl rfl (absurd rfl)
  cases answer with
  | error err =>
    obtain ⟨rfl, rfl⟩ := (finishes_finish ..).mp ends
    exact Accounts.nil
  | ok response =>
    dsimp only at ends
    rw [finishes_act] at ends
    obtain ⟨elapsed, trail, rfl, ends⟩ := ends
    refine Tells.cons ?_ rfl rfl (absurd rfl)
    rw [finishes_act] at ends
    obtain ⟨_, trail, rfl, ends⟩ := ends
    obtain ⟨rfl, rfl⟩ := (finishes_finish ..).mp ends
    exact ⟨_, by nofun, Accounts.nil.record (by nofun) (fun _ => nofun) _ _ _ _⟩

/-- What is stored is handed over, and only that is. -/
theorem store_response_accounts {url : Url} {status : StatusCode} {headers : HeaderMap}
    {body : Bytes} {key : String} {outcome : Outcome}
    (ends : (proxy.store_response crates url status headers body key).Finishes trail outcome)
    (method name : String) (bytes millis : Nat) :
    outcome ≠ .Hit ∧ Accounts crates proxy
      (trail ++ [⟨.record outcome method name bytes millis, ()⟩]) (some outcome) := by
  unfold Proxy.store_response at ends
  split at ends
  · rw [finishes_act] at ends
    obtain ⟨stored_at, trail, rfl, ends⟩ := ends
    split at ends
    · rename_i encoded encoding
      obtain ⟨put, _, back, rfl, puts, ends⟩ := (finishes_bind ..).mp ends
      obtain ⟨rfl, rfl⟩ := (finishes_finish ..).mp ends
      have none : recorded put = [] := List.filterMap_eq_nil_iff.mpr fun done member =>
        (puts.allowed (store_put_filing _ _ _) done member).silent.1
      refine ⟨nofun, ?_, nofun, iff_of_true rfl ?_⟩
      · rw [List.append_nil]
        simp only [recorded, Act.outcome, List.filterMap_cons, List.filterMap_append] at none ⊢
        rw [none]
        rfl
      · refine ⟨url.as_str, status.code, headers, body, stored_at, encoded, key, put,
          ⟨[], [⟨.record .Stored method name bytes millis, ()⟩], ?_⟩, encoding, puts⟩
        rw [List.append_nil, List.nil_append]
    · rename_i failed
      obtain ⟨rfl, rfl⟩ := (finishes_finish ..).mp ends
      refine ⟨nofun, rfl, nofun, iff_of_false nofun ?_⟩
      rintro ⟨_, _, _, _, _, encoded, _, _, inside, encoding, _⟩
      rcases List.infix_cons_iff.mp inside with begins | later
      · cases (List.cons_prefix_cons.mp begins).1
        rw [failed] at encoding
        cases encoding
      · cases List.mem_singleton.mp (later.subset List.mem_cons_self)
  · obtain ⟨rfl, rfl⟩ := (finishes_finish ..).mp ends
    exact ⟨by nofun, Accounts.nil.record (by nofun) (fun _ => nofun) _ _ _ _⟩

theorem fetch_and_store_tells {method : Method} {url : Url} {headers : HeaderMap} {key : String}
    (ends : (proxy.fetch_and_store crates method url headers key).Finishes trail result) :
    Tells crates proxy (· ≠ .Hit) trail result := by
  unfold Proxy.fetch_and_store at ends
  dsimp only at ends
  rw [finishes_act] at ends
  obtain ⟨answer, trail, rfl, ends⟩ := ends
  refine Tells.cons ?_ rfl rfl (absurd rfl)
  cases answer with
  | error err =>
    obtain ⟨rfl, rfl⟩ := (finishes_finish ..).mp ends
    exact Accounts.nil
  | ok response =>
    dsimp only at ends
    split at ends
    · rw [finishes_act] at ends
      obtain ⟨elapsed, trail, rfl, ends⟩ := ends
      refine Tells.cons ?_ rfl rfl (absurd rfl)
      rw [finishes_act] at ends
      obtain ⟨_, trail, rfl, ends⟩ := ends
      obtain ⟨rfl, rfl⟩ := (finishes_finish ..).mp ends
      exact ⟨_, by nofun, Accounts.nil.record (by nofun) (fun _ => nofun) _ _ _ _⟩
    · split at ends
      · obtain ⟨rfl, rfl⟩ := (finishes_finish ..).mp ends
        exact Accounts.nil
      · rw [finishes_act] at ends
        obtain ⟨elapsed, trail, rfl, ends⟩ := ends
        refine Tells.cons ?_ rfl rfl (absurd rfl)
        obtain ⟨store, outcome, _, rfl, stores, rest⟩ := (finishes_bind ..).mp ends
        rw [finishes_act] at rest
        obtain ⟨_, trail, rfl, rest⟩ := rest
        obtain ⟨rfl, rfl⟩ := (finishes_finish ..).mp rest
        exact ⟨outcome, store_response_accounts crates proxy stores _ _ _ _⟩

theorem handle_tells {method : Method} {headers : HeaderMap} {url : Url}
    (ends : (proxy.handle crates method headers url).Finishes trail result) :
    Tells crates proxy (fun _ => True) trail result := by
  rw [Proxy.handle, finishes_act] at ends
  obtain ⟨collected, trail, rfl, ends⟩ := ends
  refine Tells.cons ?_ rfl rfl fun _ => rfl
  cases collected with
  | error err =>
    obtain ⟨rfl, rfl⟩ := (finishes_finish ..).mp ends
    exact Accounts.nil
  | ok body =>
    dsimp only at ends
    split at ends
    · exact (forward_tells crates proxy ends).mono fun _ _ => trivial
    · obtain ⟨look, found, back, rfl, looks, rest⟩ := (finishes_bind ..).mp ends
      refine Tells.silent ?_ fun done member =>
        (looks.allowed (lookup_calling crates proxy _) done member).filing.silent
      cases found with
      | none => exact (fetch_and_store_tells crates proxy rest).mono fun _ _ => trivial
      | some entry =>
        dsimp only at rest
        rw [finishes_act] at rest
        obtain ⟨_, trail, rfl, rest⟩ := rest
        obtain ⟨rfl, rfl⟩ := (finishes_finish ..).mp rest
        exact ⟨.Hit, trivial, Accounts.nil.record (by nofun) (fun _ => nofun) _ _ _ _⟩

/-- A request for a URL records one outcome. -/
theorem proxied_accounts {request : ClientRequest} {tunnel_authority : Option String} {url : Url}
    {response : Response} (parsed : absolute_url crates request.uri tunnel_authority = .ok url)
    (ends : (proxy.proxied crates request tunnel_authority).Finishes trail response) :
    ∃ outcome, Accounts crates proxy trail (some outcome) := by
  rw [Proxy.proxied, parsed] at ends
  obtain ⟨handle, result, back, rfl, handles, rest⟩ := (finishes_bind ..).mp ends
  have tells := handle_tells crates proxy handles
  cases result with
  | ok response =>
    obtain ⟨rfl, rfl⟩ := (finishes_finish ..).mp rest
    obtain ⟨outcome, _, accounts⟩ := tells
    exact ⟨outcome, by rwa [List.append_nil]⟩
  | error message =>
    dsimp only at rest
    rw [finishes_act] at rest
    obtain ⟨_, trail, rfl, rest⟩ := rest
    obtain ⟨rfl, rfl⟩ := (finishes_finish ..).mp rest
    exact ⟨.Error message, Accounts.fails tells _ _ _ _ _⟩

/-- A connection to a port that is not intercepted, once it is open. -/
def Tunnelled (proxy : Proxy) (port : UInt16) (trail : Trail) : Prop :=
  port ∉ proxy.mitm_ports ∧ ⟨.upgrade, .ok ()⟩ ∈ trail

/-- A blind tunnel records one outcome, and no other connection does. -/
theorem serve_tunnel_accounts {host : String} {port : UInt16} {authority : Option String}
    (ends : (proxy.serve_tunnel host port).Finishes trail authority) :
    (Tunnelled proxy port trail → ∃ outcome, Accounts crates proxy trail (some outcome)) ∧
      (¬ Tunnelled proxy port trail → recorded trail = []) := by
  rw [Proxy.serve_tunnel, finishes_act] at ends
  obtain ⟨upgraded, trail, rfl, ends⟩ := ends
  cases upgraded with
  | error err =>
    obtain ⟨rfl, rfl⟩ := (finishes_finish ..).mp ends
    refine ⟨fun tunnelled => ?_, fun _ => rfl⟩
    cases List.mem_singleton.mp tunnelled.2
  | ok _ =>
    dsimp only at ends
    split at ends
    · rename_i intercepted
      refine ⟨fun tunnelled => absurd intercepted tunnelled.1, fun _ => ?_⟩
      rw [finishes_act] at ends
      obtain ⟨accepted, trail, rfl, ends⟩ := ends
      cases accepted <;> obtain ⟨rfl, rfl⟩ := (finishes_finish ..).mp ends <;> rfl
    · rename_i other
      refine ⟨fun _ => ?_, fun shut => absurd ⟨other, List.mem_cons_self⟩ shut⟩
      rw [finishes_act] at ends
      obtain ⟨_, trail, rfl, ends⟩ := ends
      refine ⟨.Pass "tunnelled port", Accounts.cons ?_ rfl rfl fun _ => rfl⟩
      refine Accounts.record ?_ (by nofun) (by nofun) _ _ _ _
      rw [finishes_act] at ends
      obtain ⟨connected, trail, rfl, ends⟩ := ends
      refine Accounts.cons ?_ rfl rfl nofun
      cases connected with
      | error err =>
        obtain ⟨rfl, rfl⟩ := (finishes_finish ..).mp ends
        exact Accounts.nil
      | ok _ =>
        dsimp only at ends
        rw [finishes_act] at ends
        obtain ⟨_, trail, rfl, ends⟩ := ends
        obtain ⟨rfl, rfl⟩ := (finishes_finish ..).mp ends
        exact Accounts.nil.cons rfl rfl nofun

end Programs

/-! ### The tasks that record nothing -/

theorem dispatch_silent (crates : Crates) (proxy : Proxy) {request : ClientRequest}
    {tunnel_authority : Option String}
    (other : ∀ url, ¬ (¬ (tunnel_authority = none ∧
      (request.method = .CONNECT ∨ request.uri.authority.isNone)) ∧
        absolute_url crates request.uri tunnel_authority = .ok url)) :
    (proxy.dispatch crates request tunnel_authority).Within Silent := by
  unfold Proxy.dispatch
  by_cases connects : tunnel_authority = none ∧ request.method = .CONNECT
  · rw [if_pos connects]
    unfold Proxy.connect
    split
    · exact trivial
    · exact .act ⟨rfl, rfl, rfl⟩ fun _ => trivial
  rw [if_neg connects]
  by_cases controls : tunnel_authority = none ∧ request.uri.authority.isNone
  · rw [if_pos controls]
    unfold Proxy.control
    split
    · exact trivial
    split
    · exact .act ⟨rfl, rfl, rfl⟩ fun _ => trivial
    split
    · exact .act ⟨rfl, rfl, rfl⟩ fun _ => trivial
    · exact trivial
  rw [if_neg controls]
  have unparsed : ∀ url, absolute_url crates request.uri tunnel_authority ≠ .ok url := by
    intro url parsed
    refine other url ⟨?_, parsed⟩
    rintro ⟨outside, method | origin⟩
    · exact connects ⟨outside, method⟩
    · exact controls ⟨outside, origin⟩
  unfold Proxy.proxied
  split
  · exact trivial
  · rename_i url parsed
    exact absurd parsed (unparsed url)

/-- A request that is not answered by the proxy itself, for a URL that parses. -/
def IsProxied (crates : Crates) (arrival : Arrival) : Prop :=
  ∃ request tunnel_authority url, arrival = .request request tunnel_authority ∧
    ¬ (tunnel_authority = none ∧
      (request.method = .CONNECT ∨ request.uri.authority.isNone)) ∧
    absolute_url crates request.uri tunnel_authority = .ok url

/-- Every call but a proxied request is silent. -/
theorem call_silent {crates : Crates} {proxy : Proxy} {arrival : Arrival} {program : Task Value}
    (called : Job.call crates proxy arrival = some program) (other : ¬ IsProxied crates arrival) :
    program.Within Silent := by
  cases arrival with
  | load_index =>
    cases called
    exact yields_within (load_index_within crates _ (fun _ asking => asking.calling.filing.silent)
      fun _ => ⟨rfl, rfl, rfl⟩) _
  | load_pack =>
    cases called
    exact (yields_within (load_pack_calling crates _) _).mono fun _ calling => calling.filing.silent
  | get key =>
    cases called
    exact (yields_within (get_calling crates _ key) _).mono fun _ calling => calling.filing.silent
  | put key bytes =>
    cases called
    exact (yields_within (store_put_filing _ key bytes) _).mono fun _ => Filing.silent
  | flush =>
    cases called
    exact (yields_within (flush_filing crates _) _).mono fun _ => Filing.silent
  | request request tunnel_authority =>
    cases called
    refine yields_within (dispatch_silent crates proxy fun url proxied => ?_) _
    exact other ⟨request, tunnel_authority, url, rfl, proxied⟩
  | tunnel => cases called
  | upload => cases called

/-- A call that is a proxied request records one outcome. -/
theorem call_accounts {crates : Crates} {proxy : Proxy} {arrival : Arrival} {program : Task Value}
    {trail : Trail} {value : Value} (called : Job.call crates proxy arrival = some program)
    (isProxied : IsProxied crates arrival) (ends : program.Finishes trail value) :
    ∃ outcome, Accounts crates proxy trail (some outcome) := by
  obtain ⟨request, tunnel_authority, url, rfl, outside, parsed⟩ := isProxied
  cases called
  obtain ⟨front, response, back, rfl, answers, rest⟩ := (finishes_bind ..).mp ends
  obtain ⟨rfl, rfl⟩ := (finishes_finish ..).mp rest
  have proxied : proxy.dispatch crates request tunnel_authority =
      proxy.proxied crates request tunnel_authority := by
    rw [Proxy.dispatch, if_neg fun both => outside ⟨both.1, Or.inl both.2⟩,
      if_neg fun both => outside ⟨both.1, Or.inr both.2⟩]
  rw [proxied] at answers
  rw [List.append_nil]
  exact proxied_accounts crates proxy parsed answers

/-! ### Counting over a run -/

instance (action : Act) : Nonempty (Answer action) := by
  cases action with
  | summary => exact ⟨Summary.default⟩
  | _ => exact inferInstance

/-- A path into a wrapped program is a path into the program. -/
theorem takes_of_yields {Result : Type} {program : Task Result} {wrap : Result → Value}
    {trail : Trail} {rest : Task Value} (takes : (yields program wrap).Takes trail rest) :
    ∃ residue, program.Takes trail residue := by
  rcases takes_bind takes with ⟨residue, begins, _⟩ | ⟨front, value, back, rfl, ends, goesOn⟩
  · exact ⟨residue, begins⟩
  · cases goesOn
    exact ⟨.finish value, by rwa [List.append_nil]⟩

theorem recorded_eq_nil {trail : Trail} (silent : ∀ done ∈ trail, Silent done.action) :
    recorded trail = [] :=
  List.filterMap_eq_nil_iff.mpr fun done member => (silent done member).1

/-- A connection that is no blind tunnel has not recorded anything. -/
theorem serve_tunnel_quiet {proxy : Proxy} {host : String} {port : UInt16} {trail : Trail}
    {rest : Task (Option String)} (takes : (proxy.serve_tunnel host port).Takes trail rest)
    (other : ¬ Tunnelled proxy port trail) : recorded trail = [] := by
  cases takes with
  | here => rfl
  | @step _ _ upgraded _ _ later =>
    cases upgraded with
    | error err =>
      cases later
      rfl
    | ok _ =>
      have intercepted : port ∈ proxy.mitm_ports := by
        by_contra blind
        exact other ⟨blind, List.mem_cons_self⟩
      dsimp only at later
      rw [if_pos intercepted] at later
      refine recorded_eq_nil fun done member => ?_
      rcases List.mem_cons.mp member with rfl | member
      · exact ⟨rfl, rfl, rfl⟩
      · refine later.allowed ?_ done member
        refine .act ⟨rfl, rfl, rfl⟩ fun accepted => ?_
        cases accepted <;> exact trivial

section Run

variable {crates : Crates} {proxy : Proxy} {service : Service} {built : List Built}
variable {events : List (Event TaskId Choice Arrival)}
variable {after : Config Act Answer TaskId World Value}

/-- What a task of a job performed. -/
def Job.trail (crates : Crates) (proxy : Proxy) (service : Service) (built : List Built)
    (events : List (Event TaskId Choice Arrival)) (id : TaskId) : Trail :=
  pathOf id ((machine crates proxy).history (idle proxy (fresh proxy service built)) events)

/-- The task is a proxied request, or the connection of a blind tunnel that was opened. -/
def Counts (crates : Crates) (proxy : Proxy) (events : List (Event TaskId Choice Arrival))
    (after : Config Act Answer TaskId World Value) (trail : TaskId → Trail) (id : TaskId) : Prop :=
  (∃ arrival, .arrive id arrival ∈ events ∧ IsProxied crates arrival) ∨
    ∃ number host port, id = .tunnel number ∧
      after.shared.tunnels.lookup number = some (host, port) ∧ Tunnelled proxy port (trail id)

/-- The connections that were opened stay known. -/
theorem tunnels_kept {start : Config Act Answer TaskId World Value}
    (ran : (Job.machine crates proxy).run start events = some after) {number : Nat}
    {target : String × UInt16} (opened : start.shared.tunnels.lookup number = some target) :
    after.shared.tunnels.lookup number = some target := by
  have reached : (Job.machine crates proxy).Reaches (fun _ _ => True) start after :=
    .of_run (fun _ _ _ => trivial) ran
  refine reached.preserves (fun config => config.shared.tunnels.lookup number = some target) ?_
    opened
  intro before event next _ stepped kept
  cases stepped with
  | acted task result =>
    rcases exec_tunnels result with same | ⟨_, _, _, _, _, added⟩
    · exact same ▸ kept
    · rw [added, List.lookup_append, kept]
      rfl
  | looped task result => exact kept
  | arrived free result =>
    rcases Job.accept_cases crates proxy result with ⟨_, _, _, rfl⟩ | ⟨_, _, _, _, _, _, rfl⟩ |
      ⟨_, _, _, _, _, _, _, _, rfl⟩ <;> exact kept

/-- Only the upload loop goes round. -/
theorem again_eq_none {id : TaskId} (other : id ≠ .uploader) (value : Value) :
    (Job.machine crates proxy).again id value = none := by
  cases id with
  | uploader => exact absurd rfl other
  | _ => rfl

/-- What the tasks of a job perform is in the footprint of their kind. -/
theorem Job.history_within {world : World}
    (ran : (machine crates proxy).run (idle proxy world) events = some after)
    (allowed : TaskId → Act → Prop)
    (calls : ∀ number arrival program, call crates proxy arrival = some program →
      program.Within (allowed (.call number)))
    (tunnels : ∀ number host port, (proxy.serve_tunnel host port).Within (allowed (.tunnel number)))
    (rounds : proxy.store.upload_round.Within (allowed .uploader))
    (uploads : ∀ number gha key bytes,
      (Store.upload crates gha key bytes).Within (allowed (.upload number))) :
    ∀ entry ∈ (machine crates proxy).history (idle proxy world) events,
      allowed entry.1 entry.2.action := by
  refine Machine.history_within ran allowed (fun id program task => ?_)
    (fun id value program round => ?_) fun id arrival before program shared result => ?_
  · cases id with
    | uploader =>
      cases task
      exact yields_within rounds _
    | _ => cases task
  · cases id with
    | uploader =>
      cases value with
      | round goes =>
        cases goes <;> cases round
        exact yields_within rounds _
      | _ => cases round
    | _ => cases round
  · rcases accept_cases crates proxy result with ⟨number, rfl, called, -⟩ |
      ⟨number, host, port, rfl, -, rfl, -⟩ | ⟨number, key, bytes, gha, rfl, -, -, rfl, -⟩
    · exact calls number arrival program called
    · exact yields_within (tunnels number host port) _
    · exact yields_within (uploads number gha key bytes) _

/-- The upload loop records nothing. -/
theorem uploader_quiet
    (ran : (Job.machine crates proxy).run (Job.idle proxy (Job.fresh proxy service built)) events =
      some after) : recorded (Job.trail crates proxy service built events .uploader) = [] := by
  have within := Job.history_within ran (fun id action => id = .uploader → Silent action)
    (fun _ _ program _ => .of_all (fun _ => nofun) program)
    (fun _ _ _ => .of_all (fun _ => nofun) _)
    ((upload_round_filing _).mono fun _ filing _ => filing.silent)
    fun _ _ _ _ => .of_all (fun _ => nofun) _
  exact recorded_eq_nil fun done member => within _ (mem_pathOf.mp member) rfl

/-- A task that counts records one outcome by its end, and another one records none. -/
theorem task_accounts
    (ran : (Job.machine crates proxy).run (Job.idle proxy (Job.fresh proxy service built)) events =
      some after) (id : TaskId) :
    let trail := Job.trail crates proxy service built events
    (Counts crates proxy events after trail id →
      ∀ value, after.tasks id = some (.finish value) →
        ∃ outcome, Accounts crates proxy (trail id) (some outcome)) ∧
    (¬ Counts crates proxy events after trail id → recorded (trail id) = []) ∧
    (recorded (trail id)).length ≤ 1 := by
  intro trail
  by_cases loops : id = .uploader
  · subst loops
    have quiet : recorded (trail .uploader) = [] := uploader_quiet ran
    refine ⟨?_, fun _ => quiet, by rw [quiet]; exact Nat.zero_le 1⟩
    rintro (⟨arrival, member, _⟩ | ⟨_, _, _, ⟨⟩, _⟩)
    exact absurd member (Machine.arrive_not_mem ran rfl arrival)
  have free : (Job.idle proxy (Job.fresh proxy service built)).tasks id = none := by
    cases id with
    | uploader => exact absurd rfl loops
    | _ => rfl
  rcases Machine.arrived_or ran (again_eq_none loops) free with ⟨absent, nothing, never⟩ | arrived
  · have empty : trail id = [] := nothing
    rw [empty]
    refine ⟨fun _ value ended => ?_, fun _ => rfl, Nat.zero_le 1⟩
    rw [absent] at ended
    cases ended
  obtain ⟨front, arrival, back, config, program, shared, parts, reached, accepted, rest, task,
    takes⟩ := arrived
  change program.Takes (trail id) rest at takes
  have member : .arrive id arrival ∈ events := by
    rw [parts]
    exact List.mem_append_right _ List.mem_cons_self
  -- Where the whole path of a task records one outcome, any part of it records at most one.
  have atMost : (∀ more value, program.Finishes (trail id ++ more) value →
      ∃ outcome, recorded (trail id ++ more) = Option.toList outcome) →
      (recorded (trail id)).length ≤ 1 := by
    intro whole
    obtain ⟨more, value, ends⟩ := rest.exists_finishes
    obtain ⟨outcome, records⟩ := whole more value (takes.trans ends)
    have lengths := congrArg List.length records
    rw [recorded, List.filterMap_append, List.length_append] at lengths
    have bound : (Option.toList outcome).length ≤ 1 := by
      cases outcome with
      | none => exact Nat.zero_le 1
      | some _ => exact le_rfl
    rw [← lengths] at bound
    exact (Nat.le_add_right _ _).trans bound
  have silentCase : program.Within Silent → recorded (trail id) = [] := fun within =>
    recorded_eq_nil (takes.allowed within)
  rcases Job.accept_cases crates proxy accepted with ⟨number, rfl, called, rfl⟩ |
    ⟨number, host, port, rfl, opened, rfl, rfl⟩ |
    ⟨number, key, bytes, gha, rfl, waiting, client, rfl, rfl⟩
  · by_cases isProxied : IsProxied crates arrival
    · refine ⟨fun _ value ended => ?_, fun other => ?_, atMost fun more value ends => ?_⟩
      · rw [task, Option.some_inj] at ended
        exact call_accounts called isProxied (ended ▸ takes)
      · exact absurd (Or.inl ⟨arrival, member, isProxied⟩) other
      · obtain ⟨outcome, accounts⟩ := call_accounts called isProxied ends
        exact ⟨some outcome, accounts.once⟩
    · have quiet := silentCase (call_silent called isProxied)
      refine ⟨?_, fun _ => quiet, by rw [quiet]; exact Nat.zero_le 1⟩
      rintro (⟨other, arrives, counted⟩ | ⟨_, _, _, ⟨⟩, _⟩)
      exact absurd (Machine.arrive_unique ran arrives member ▸ counted) isProxied
  · have still : after.shared.tunnels.lookup number = some (host, port) := by
      have later : (Job.machine crates proxy).run config
          (.arrive (.tunnel number) arrival :: back) =
          some after := by
        rw [parts, Machine.run_append, reached] at ran
        exact ran
      exact tunnels_kept later opened
    have finished : ∀ path value, (yields (proxy.serve_tunnel host port) .tunnelled).Finishes path
        value → ∃ authority, (proxy.serve_tunnel host port).Finishes path authority := by
      intro path value ends
      obtain ⟨front, authority, back, rfl, serves, last⟩ := (finishes_bind ..).mp ends
      obtain ⟨rfl, _⟩ := (finishes_finish ..).mp last
      exact ⟨authority, by rwa [List.append_nil]⟩
    refine ⟨fun counted value ended => ?_, fun other => ?_, atMost fun more value ends => ?_⟩
    · rw [task, Option.some_inj] at ended
      obtain ⟨authority, serves⟩ := finished _ value (ended ▸ takes)
      rcases counted with ⟨other, arrives, isProxied⟩ | ⟨_, _, _, same, target, tunnelled⟩
      · obtain rfl := Machine.arrive_unique ran arrives member
        obtain ⟨_, _, _, rfl, _⟩ := isProxied
        cases accepted
      · cases same
        rw [still] at target
        cases target
        exact (serve_tunnel_accounts crates proxy serves).1 tunnelled
    · obtain ⟨residue, serves⟩ := takes_of_yields takes
      exact serve_tunnel_quiet serves fun tunnelled =>
        other (Or.inr ⟨number, host, port, rfl, still, tunnelled⟩)
    · obtain ⟨authority, serves⟩ := finished _ value ends
      have accounts := serve_tunnel_accounts crates proxy serves
      by_cases tunnelled : Tunnelled proxy port (trail (.tunnel number) ++ more)
      · obtain ⟨outcome, accounts⟩ := accounts.1 tunnelled
        exact ⟨some outcome, accounts.once⟩
      · exact ⟨none, accounts.2 tunnelled⟩
  · have quiet := silentCase (yields_within (upload_within crates
      (fun _ asking => asking.calling.filing.silent) (fun _ => ⟨rfl, rfl, rfl⟩) ⟨rfl, rfl, rfl⟩
      (fun _ _ => ⟨rfl, rfl, rfl⟩) ⟨rfl, rfl, rfl⟩ gha key bytes) _)
    refine ⟨?_, fun _ => quiet, by rw [quiet]; exact Nat.zero_le 1⟩
    rintro (⟨other, arrives, counted⟩ | ⟨_, _, _, ⟨⟩, _⟩)
    obtain rfl := Machine.arrive_unique ran arrives member
    obtain ⟨_, _, _, rfl, _⟩ := counted
    cases accepted

/-- The tasks that count all arrived. -/
theorem counts_finite
    (ran : (Job.machine crates proxy).run (Job.idle proxy (Job.fresh proxy service built)) events =
      some after) :
    {id | Counts crates proxy events after (Job.trail crates proxy service built events)
      id}.Finite := by
  have arrivals : {id : TaskId | ∃ arrival, .arrive id arrival ∈ events}.Finite := by
    refine (List.finite_toSet (events.filterMap fun event => match event with
      | .arrive id _ => some id
      | .run _ _ => none)).subset ?_
    rintro id ⟨arrival, member⟩
    exact List.mem_filterMap.mpr ⟨_, member, rfl⟩
  refine arrivals.subset ?_
  rintro id (⟨arrival, member, _⟩ | ⟨number, _, _, rfl, _, tunnelled⟩)
  · exact ⟨arrival, member⟩
  · rcases Machine.arrived_or ran (@again_eq_none crates proxy (.tunnel number) (by nofun)) rfl
      with ⟨_, nothing, _⟩ | arrived
    · have performed := tunnelled.2
      rw [Job.trail, nothing] at performed
      cases performed
    · obtain ⟨front, arrival, back, _, _, _, parts, _⟩ := arrived
      refine ⟨arrival, ?_⟩
      rw [parts]
      exact List.mem_append_right _ List.mem_cons_self

/-- How an action changes the statistics. -/
theorem exec_stats {id : TaskId} {action : Act} {choice : Choice} {before after : World}
    {answer : Answer action} (result : World.exec id action choice before = some (answer, after)) :
    after.stats = match action with
      | .record outcome _ _ bytes millis => before.stats.record outcome bytes millis
      | .record_upload bytes ok => before.stats.record_upload bytes ok
      | .record_packed objects bytes => before.stats.record_packed objects bytes
      | _ => before.stats := by
  cases action <;> simp only [World.exec] at result <;> (repeat' split at result) <;>
    cases result <;> rfl

/-- The counters add up. -/
def Summary.Balanced (stats : Summary) : Prop :=
  stats.requests = stats.hits + stats.misses + stats.passthrough + stats.errors ∧
    stats.stored ≤ stats.misses

theorem Summary.Balanced.record {stats : Summary} (balanced : stats.Balanced) (outcome : Outcome)
    (bytes millis : Nat) : (stats.record outcome bytes millis).Balanced := by
  obtain ⟨sum, below⟩ := balanced
  cases outcome <;> simp only [Balanced, Summary.record] <;> omega

theorem Summary.Balanced.record_upload {stats : Summary} (balanced : stats.Balanced) (bytes : Nat)
    (ok : Bool) : (stats.record_upload bytes ok).Balanced := by
  cases ok <;> exact balanced

theorem stats_balanced
    (ran : (Job.machine crates proxy).run (Job.idle proxy (Job.fresh proxy service built)) events =
      some after) : after.shared.stats.Balanced := by
  have reached : (Job.machine crates proxy).Reaches (fun _ _ => True) _ after :=
    .of_run (fun _ _ _ => trivial) ran
  refine reached.preserves (fun config => config.shared.stats.Balanced) ?_ ⟨rfl, le_rfl⟩
  intro before event next _ stepped kept
  cases stepped with
  | @acted _ _ action _ _ _ task result =>
    rw [exec_stats result]
    cases action with
    | record outcome method url bytes millis => exact kept.record outcome bytes millis
    | record_upload bytes ok => exact kept.record_upload bytes ok
    | _ => exact kept
  | looped task result => exact kept
  | arrived free result =>
    rcases Job.accept_cases crates proxy result with ⟨_, _, _, rfl⟩ | ⟨_, _, _, _, _, _, rfl⟩ |
      ⟨_, _, _, _, _, _, _, _, rfl⟩ <;> exact kept

/-- A counter of the statistics counts the records of some outcomes. -/
theorem counter_eq
    (ran : (Job.machine crates proxy).run (Job.idle proxy (Job.fresh proxy service built)) events =
      some after) (counter : Summary → Nat) (counted : Outcome → Bool)
    (zero : counter .default = 0)
    (records : ∀ stats outcome bytes millis, counter (stats.record outcome bytes millis) =
      counter stats + if counted outcome = true then 1 else 0)
    (uploads : ∀ stats bytes ok, counter (stats.record_upload bytes ok) = counter stats)
    (packs : ∀ stats objects bytes, counter (stats.record_packed objects bytes) = counter stats) :
    counter after.shared.stats =
      ∑ id ∈ (counts_finite ran).toFinset,
        (recorded (Job.trail crates proxy service built events id)).countP counted := by
  have total := Machine.count_history ran (fun world => counter world.stats)
    (fun done => done.action.outcome.any counted)
      (fun id action choice before answer shared result => ?_)
    fun id arrival before program shared result => ?_
  · have begins : counter (Job.idle proxy (Job.fresh proxy service built)).shared.stats = 0 := zero
    rw [begins, Nat.zero_add] at total
    refine total.trans ((countP_history
      (fun done : Done Act Answer => done.action.outcome.any counted) _ (counts_finite ran).toFinset
      fun entry member counts => ?_).trans (Finset.sum_congr rfl fun id _ => ?_))
    · rw [Set.Finite.mem_toFinset]
      by_contra other
      have quiet := (task_accounts ran entry.1).2.1 other
      have silent := List.filterMap_eq_nil_iff.mp quiet entry.2 (mem_pathOf.mpr member)
      rw [silent] at counts
      cases counts
    · rw [recorded, List.countP_filterMap]
      refine List.countP_congr fun done _ => ?_
      cases done.action.outcome <;> exact Iff.rfl
  · rw [exec_stats result]
    cases action with
    | record outcome method url bytes millis => exact records _ _ _ _
    | record_upload bytes ok => exact uploads _ _ _
    | record_packed objects bytes => exact packs _ _ _
    | _ => rfl
  · rcases Job.accept_cases crates proxy result with ⟨_, _, _, rfl⟩ | ⟨_, _, _, _, _, _, rfl⟩ |
      ⟨_, _, _, _, _, _, _, _, rfl⟩ <;> rfl

/-- Every request for a URL and every blind tunnel records one outcome, nothing else records any,
and the counters add up; when all of them have ended, their number is the number of requests, and
as many were stored as handed an encoded entry to the store. A hit has sent no request upstream. -/
theorem outcomes_recorded
    (ran : (Job.machine crates proxy).run (Job.idle proxy (Job.fresh proxy service built)) events =
      some after) :
    let trail := Job.trail crates proxy service built events
    let counts := Counts crates proxy events after trail
    (∀ id, (counts id → ∀ value, after.tasks id = some (.finish value) →
        ∃ outcome, Accounts crates proxy (trail id) (some outcome)) ∧
      (¬ counts id → recorded (trail id) = []) ∧ (recorded (trail id)).length ≤ 1) ∧
    after.shared.stats.Balanced ∧
    ((∀ id, counts id → ∃ value, after.tasks id = some (.finish value)) →
      after.shared.stats.requests = {id | counts id}.ncard ∧
      after.shared.stats.stored = {id | counts id ∧ Handed crates proxy (trail id)}.ncard) := by
  intro trail counts
  refine ⟨task_accounts ran, stats_balanced ran, fun ended => ?_⟩
  have accounted : ∀ id ∈ (counts_finite ran).toFinset, ∃ outcome,
      Accounts crates proxy (trail id) (some outcome) := by
    intro id member
    have counted : counts id := (counts_finite ran).mem_toFinset.mp member
    obtain ⟨value, task⟩ := ended id counted
    exact (task_accounts ran id).1 counted value task
  constructor
  · rw [counter_eq ran Summary.requests (fun _ => true) rfl (by intros; cases ‹Outcome› <;> rfl)
      (fun _ _ ok => by cases ok <;> rfl) (fun _ _ _ => rfl),
      Set.ncard_eq_toFinset_card _ (counts_finite ran), Finset.card_eq_sum_ones]
    refine Finset.sum_congr rfl fun id member => ?_
    obtain ⟨outcome, accounts⟩ := accounted id member
    rw [accounts.once]
    rfl
  · classical
    rw [counter_eq ran Summary.stored (· = .Stored) rfl (by intros; cases ‹Outcome› <;> rfl)
      (fun _ _ ok => by cases ok <;> rfl) (fun _ _ _ => rfl)]
    have handed : {id | counts id ∧ Handed crates proxy (trail id)}.Finite :=
      (counts_finite ran).subset fun id both => both.1
    have same : handed.toFinset =
        (counts_finite ran).toFinset.filter fun id => Handed crates proxy (trail id) := by
      ext id
      rw [Set.Finite.mem_toFinset, Finset.mem_filter, Set.Finite.mem_toFinset]
      exact Iff.rfl
    rw [Set.ncard_eq_toFinset_card _ handed, same, Finset.card_filter]
    refine Finset.sum_congr rfl fun id member => ?_
    obtain ⟨outcome, accounts⟩ := accounted id member
    change (recorded (trail id)).countP _ = _
    rw [accounts.once, Option.toList_some, List.countP_singleton]
    refine if_congr ?_ rfl rfl
    rw [← accounts.stored, decide_eq_true_iff, Option.some_inj]

end Run

/-- A request whose body breaks off. -/
def brokenRequest : ClientRequest where
  method := .GET
  uri := ⟨some ⟨"example.com", none⟩, "/a", some "/a", "https://example.com/a"⟩
  headers := []

def brokenEvents : List (Event TaskId Choice Arrival) :=
  [.arrive (.call 0) (.request brokenRequest none), .run (.call 0) (.collected (.error "reset")),
    .run (.call 0) .quiet]

/-- It counts as one error. -/
theorem outcomes_recorded_broken :
    ∃ outcome, Accounts exampleCrates exampleProxy
      (Job.trail exampleCrates exampleProxy .empty [] brokenEvents (.call 0)) (some outcome) := by
  have ran : (Job.machine exampleCrates exampleProxy).run
      (Job.idle exampleProxy (Job.fresh exampleProxy .empty [])) brokenEvents = some _ := rfl
  refine ((outcomes_recorded ran).1 (.call 0)).1 (Or.inl ⟨_, List.mem_cons_self, ?_⟩) _ rfl
  refine ⟨brokenRequest, none, exampleUrl, rfl, ?_, rfl⟩
  rintro ⟨_, method | origin⟩
  · cases method
  · cases origin

end Cicache
