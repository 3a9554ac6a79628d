/-
This file settles what becomes of traffic with a bypassed host. Whether a `CONNECT` is intercepted
is decided by its port alone, and whether a request is eligible for the cache by its host. So a
plain request to a bypassed host is forwarded and never touches the cache, whereas a `CONNECT` to
one is forwarded blind exactly when its port is not among the intercepted ones.
-/

import Cicache.Footprint

namespace Cicache

open Text Interleaving

/-! ### What the tasks of a request do -/

/-- Terminating a connection's TLS against the generated authority. -/
def Intercepts : Act → Prop
  | .accept_tls _ => True
  | _ => False

/-- Looking something up in the cache, or putting something into it. -/
def TouchesCache : Act → Prop
  | .insert _ _ | .contains _ _ | .iter _ | .load _ => True
  | .store flag => flag ≠ .shutdown
  | .read _ | .write_begin _ _ | .write_end _ _ => True
  | .clone_sender | .send _ | .take_sender | .recv | .spawn _ => True
  | .post _ _ _ | .put_blob _ _ | .get_blob _ => True
  | .build_entry _ _ _ _ => True
  | _ => False

/-- The only request that arrives at a call's number. -/
def OnlyRequest (number : Nat) (request : ClientRequest)
    (_ : Config Act Answer TaskId World Value) : Event TaskId Choice Arrival → Prop
  | .arrive (.call other) arrival => other = number → arrival = .request request none
  | _ => True

/-- In every run of a job, whatever the other tasks and the environment do, neither the task of
the request nor the connection behind it ever intercepts or touches the cache. -/
def Blind (crates : Crates) (proxy : Proxy) (request : ClientRequest) : Prop :=
  ∀ service built number id action, id = .call number ∨ id = .tunnel number →
    (Job.machine crates proxy).ComesTo (OnlyRequest number request)
      (Job.idle proxy (Job.fresh proxy service built)) id action →
    ¬ Intercepts action ∧ ¬ TouchesCache action

/-- A `CONNECT` to a bypassed host, or a plain request to one. -/
def ToBypassed (crates : Crates) (policy : Policy) (request : ClientRequest) : Prop :=
  if request.method = .CONNECT then
    ∃ authority, request.uri.authority = some authority ∧ policy.is_bypassed authority.host = true
  else
    request.uri.authority.isSome = true ∧ ∃ url,
      absolute_url crates request.uri none = .ok url ∧ policy.is_bypassed url.host_str = true

/-- A `CONNECT` to an intercepted port. -/
def ToMitmPort (proxy : Proxy) (request : ClientRequest) : Prop :=
  request.method = .CONNECT ∧ ∃ authority, request.uri.authority = some authority ∧
    authority.port.getD 443 ∈ proxy.mitm_ports

/-! ### Plain requests -/

/-- The actions of the tasks of a blind request: they neither intercept nor touch the cache, and
open no connection on an intercepted port. -/
def BlindAction (proxy : Proxy) (action : Act) : Prop :=
  ¬ Intercepts action ∧ ¬ TouchesCache action ∧
    ∀ host port, action = .spawn_tunnel host port → port ∉ proxy.mitm_ports

theorem forward_within (proxy : Proxy) (method : Method) (url : Url) (headers : HeaderMap)
    (body : Bytes) (reject : Reject) :
    (Proxy.forward method url headers body reject).Within (BlindAction proxy) := by
  unfold Proxy.forward
  refine ⟨⟨id, id, nofun⟩, fun answer => ?_⟩
  cases answer with
  | error err => exact trivial
  | ok response => exact ⟨⟨id, id, nofun⟩, fun _ => ⟨⟨id, id, nofun⟩, fun _ => trivial⟩⟩

theorem proxied_within {crates : Crates} {proxy : Proxy} {request : ClientRequest} {url : Url}
    (parsed : absolute_url crates request.uri none = .ok url)
    (bypassed : proxy.policy.is_bypassed url.host_str = true) :
    (proxy.proxied crates request none).Within (BlindAction proxy) := by
  unfold Proxy.proxied
  rw [parsed]
  refine Program.Within.bind ?_ fun result => ?_
  · unfold Proxy.handle
    refine ⟨⟨id, id, nofun⟩, fun collected => ?_⟩
    cases collected with
    | error err => exact trivial
    | ok body =>
      obtain ⟨reject, rejected⟩ := Policy.request_eligible_of_bypassed crates bypassed
        request.method request.headers
      simp only [rejected]
      exact forward_within proxy _ _ _ _ _
  · cases result with
    | error message => exact ⟨⟨id, id, nofun⟩, fun _ => trivial⟩
    | ok response => exact trivial

/-! ### `CONNECT` -/

/-- A connection on a port that is not intercepted is copied through. -/
theorem serve_tunnel_within {proxy : Proxy} {port : UInt16} (blind : port ∉ proxy.mitm_ports)
    (host : String) : (proxy.serve_tunnel host port).Within (BlindAction proxy) := by
  unfold Proxy.serve_tunnel
  refine ⟨⟨id, id, nofun⟩, fun upgraded => ?_⟩
  cases upgraded with
  | error err => exact trivial
  | ok _ =>
    simp only [if_neg blind]
    refine ⟨⟨id, id, nofun⟩, fun _ => ⟨⟨id, id, nofun⟩, fun connected => ?_⟩⟩
    cases connected with
    | error err => exact trivial
    | ok _ => exact ⟨⟨id, id, nofun⟩, fun _ => trivial⟩

/-- A request to a bypassed host is blind unless it is a `CONNECT` to an intercepted port. -/
theorem dispatch_within {crates : Crates} {proxy : Proxy} {request : ClientRequest}
    (bypassed : ToBypassed crates proxy.policy request) (blind : ¬ ToMitmPort proxy request) :
    (proxy.dispatch crates request none).Within (BlindAction proxy) := by
  unfold Proxy.dispatch
  unfold ToBypassed at bypassed
  by_cases method : request.method = .CONNECT
  · rw [if_pos ⟨rfl, method⟩]
    rw [if_pos method] at bypassed
    obtain ⟨authority, named, _⟩ := bypassed
    unfold Proxy.connect
    rw [named]
    refine ⟨⟨id, id, fun host port opened => ?_⟩, fun _ => trivial⟩
    cases opened
    exact fun intercepted => blind ⟨method, authority, named, intercepted⟩
  · rw [if_neg fun both => method both.2]
    rw [if_neg method] at bypassed
    obtain ⟨absolute, url, parsed, bypassed⟩ := bypassed
    rw [if_neg fun both => by simp [Option.isSome_iff_ne_none.mp absolute] at both]
    exact proxied_within parsed bypassed

/-- The task of the request and the connection behind it are blind, and so is any connection it
has opened. -/
structure BlindTasks (proxy : Proxy) (number : Nat)
    (config : Config Act Answer TaskId World Value) : Prop where
  call : ∀ program, config.tasks (.call number) = some program →
    program.Within (BlindAction proxy)
  tunnel : ∀ program, config.tasks (.tunnel number) = some program →
    program.Within (BlindAction proxy)
  opened : ∀ host port, (number, host, port) ∈ config.shared.tunnels → port ∉ proxy.mitm_ports

/-- Replacing a task keeps the tasks of the request blind when the new one is, wherever it is one
of them. -/
theorem BlindTasks.update {proxy : Proxy} {number : Nat}
    {config : Config Act Answer TaskId World Value} (blind : BlindTasks proxy number config)
    (id : TaskId) (program : Task Value) (shared : World)
    (within : id = .call number ∨ id = .tunnel number → program.Within (BlindAction proxy))
    (opened : ∀ host port, (number, host, port) ∈ shared.tunnels → port ∉ proxy.mitm_ports) :
    BlindTasks proxy number ⟨shared, Function.update config.tasks id (some program)⟩ := by
  have kept : ∀ other, other = .call number ∨ other = .tunnel number →
      (∀ task, config.tasks other = some task → task.Within (BlindAction proxy)) →
      ∀ task, Function.update config.tasks id (some program) other = some task →
        task.Within (BlindAction proxy) := by
    intro other serves before task found
    by_cases same : other = id
    · subst same
      rw [Function.update_self, Option.some_inj] at found
      exact found ▸ within serves
    · rw [Function.update_of_ne same] at found
      exact before task found
  exact ⟨kept _ (Or.inl rfl) blind.call, kept _ (Or.inr rfl) blind.tunnel, opened⟩

theorem BlindTasks.step {crates : Crates} {proxy : Proxy} {number : Nat} {request : ClientRequest}
    (bypassed : ToBypassed crates proxy.policy request) (blind : ¬ ToMitmPort proxy request)
    {before after : Config Act Answer TaskId World Value} {event : Event TaskId Choice Arrival}
    (permitted : OnlyRequest number request before event)
    (stepped : (Job.machine crates proxy).Stepped before event after)
    (kept : BlindTasks proxy number before) : BlindTasks proxy number after := by
  cases stepped with
  | @acted id choice action next answer shared task result =>
    have within : id = .call number ∨ id = .tunnel number →
        (Program.perform action next).Within (BlindAction proxy) := by
      rintro (rfl | rfl)
      · exact kept.call _ task
      · exact kept.tunnel _ task
    refine kept.update _ _ _ (fun serves => (within serves).2 answer) fun host port member => ?_
    rcases exec_tunnels result with same | ⟨other, opened, on, rfl, rfl, added⟩
    · exact kept.opened host port (same ▸ member)
    · rw [added, List.mem_append, List.mem_singleton] at member
      rcases member with earlier | new
      · exact kept.opened host port earlier
      · cases new
        exact (within (Or.inl rfl)).1.2.2 host port rfl
  | @looped id choice value program task result =>
    refine kept.update _ _ _ (fun serves => ?_) kept.opened
    rcases serves with rfl | rfl <;> cases result
  | @arrived id arrival program shared free result =>
    rcases Job.accept_cases crates proxy result with ⟨other, rfl, called, rfl⟩ |
      ⟨other, host, port, rfl, opened, rfl, rfl⟩ | ⟨other, _, _, _, rfl, _, _, rfl, rfl⟩
    · refine kept.update _ _ _ (fun serves => ?_) kept.opened
      rcases serves with same | ⟨⟨⟩⟩
      cases same
      rw [permitted rfl] at called
      cases called
      exact yields_within (dispatch_within bypassed blind) _
    · refine kept.update _ _ _ (fun serves => ?_) kept.opened
      rcases serves with ⟨⟨⟩⟩ | same
      cases same
      exact yields_within (serve_tunnel_within (kept.opened host port (lookup_mem opened)) host) _
    · exact kept.update _ _ _ (fun serves => by rcases serves with ⟨⟨⟩⟩ | ⟨⟨⟩⟩) kept.opened

theorem BlindTasks.start (proxy : Proxy) (number : Nat) (service : Service) (built : List Built) :
    BlindTasks proxy number (Job.idle proxy (Job.fresh proxy service built)) where
  call := nofun
  tunnel := nofun
  opened := nofun

/-- A `CONNECT` to an intercepted port comes to be intercepted in some run. -/
theorem comesTo_intercept (crates : Crates) {proxy : Proxy} {request : ClientRequest}
    (intercepted : ToMitmPort proxy request) (service : Service) (built : List Built) :
    ∃ host, (Job.machine crates proxy).ComesTo (OnlyRequest 0 request)
      (Job.idle proxy (Job.fresh proxy service built)) (.tunnel 0) (.accept_tls host) := by
  obtain ⟨method, authority, named, mitm⟩ := intercepted
  have connects : proxy.dispatch crates request none =
      .perform (.spawn_tunnel authority.host (authority.port.getD 443)) fun _ =>
        .finish { status := .OK, headers := [], body := .full [] } := by
    unfold Proxy.dispatch Proxy.connect
    rw [if_pos ⟨rfl, method⟩, named]
    rfl
  have intercepts : ∃ next rest, proxy.serve_tunnel authority.host (authority.port.getD 443) =
      .perform .upgrade next ∧ next (.ok ()) = .perform (.accept_tls authority.host) rest := by
    unfold Proxy.serve_tunnel
    simp only [if_pos mitm]
    exact ⟨_, _, rfl, rfl⟩
  obtain ⟨next, rest, intercepts, accepts⟩ := intercepts
  -- The request arrives and opens its connection; the connection begins and is upgraded.
  have start : (Job.machine crates proxy).Reaches (OnlyRequest 0 request)
    (Job.idle proxy (Job.fresh proxy service built)) _ := .refl
  have requested := start.arrived (.call 0) (.request request none) rfl rfl (fun _ => rfl)
  rw [connects] at requested
  have opens := requested.acted (.call 0) .quiet
    (.spawn_tunnel authority.host (authority.port.getD 443)) rfl rfl trivial
  have begun := opens.arrived (.tunnel 0) .tunnel rfl rfl trivial
  rw [intercepts] at begun
  have upgraded := begun.acted (.tunnel 0) (.connection (.ok ())) .upgrade rfl rfl trivial
  exact ⟨authority.host, _, _, upgraded, congrArg (fun task => some (yields task .tunnelled))
    accepts⟩

/-- A request to a bypassed host is handled blind exactly when it is no `CONNECT` to an
intercepted port. -/
theorem blind_iff (crates : Crates) (proxy : Proxy) (request : ClientRequest)
    (bypassed : ToBypassed crates proxy.policy request) :
    Blind crates proxy request ↔ ¬ ToMitmPort proxy request := by
  constructor
  · intro blind intercepted
    obtain ⟨host, comes⟩ := comesTo_intercept crates intercepted .empty []
    exact (blind _ _ 0 _ _ (Or.inr rfl) comes).1 trivial
  · intro spared service built number id action serves comes
    obtain ⟨config, next, reached, task⟩ := comes
    have kept := reached.preserves (BlindTasks proxy number)
      (fun _ _ _ permitted stepped kept => kept.step bypassed spared permitted stepped)
      (BlindTasks.start proxy number service built)
    have within : (Program.perform action next).Within (BlindAction proxy) := by
      rcases serves with rfl | rfl
      · exact kept.call _ task
      · exact kept.tunnel _ task
    exact ⟨within.1.1, within.1.2.1⟩

/-- A `CONNECT` to the runner itself on a port. -/
def connectLocalhost (port : UInt16) : ClientRequest where
  method := .CONNECT
  uri :=
    { authority := some ⟨"localhost", some port⟩
      path := ""
      path_and_query := none
      text := "localhost:" ++ Nat.repr port.toNat }
  headers := []

theorem connectLocalhost_bypassed (crates : Crates) (port : UInt16) :
    ToBypassed crates exampleProxy.policy (connectLocalhost port) := by
  have method : (connectLocalhost port).method = .CONNECT := rfl
  have localhost : exampleProxy.policy.is_bypassed "localhost" = true := by decide
  unfold ToBypassed
  rw [if_pos method]
  exact ⟨_, rfl, localhost⟩

/-- A remote shell on the runner is left alone. -/
theorem blind_connectLocalhost : Blind .unknown exampleProxy (connectLocalhost 22) := by
  refine (blind_iff .unknown exampleProxy (connectLocalhost 22)
    (connectLocalhost_bypassed _ 22)).mpr ?_
  rintro ⟨_, authority, named, intercepted⟩
  cases named
  exact absurd intercepted (by decide)

/-- HTTPS to the runner itself is intercepted, although the host is bypassed. -/
theorem connect_bypassed_intercepted :
    ¬ ∀ (crates : Crates) (proxy : Proxy) (request : ClientRequest),
      ToBypassed crates proxy.policy request → Blind crates proxy request := by
  intro always
  have mitm : ToMitmPort exampleProxy (connectLocalhost 443) := ⟨rfl, _, rfl, by decide⟩
  obtain ⟨host, comes⟩ := comesTo_intercept .unknown mitm .empty []
  exact (always .unknown exampleProxy _ (connectLocalhost_bypassed _ 443) _ _ 0 _ _
    (Or.inr rfl) comes).1 trivial

end Cicache
