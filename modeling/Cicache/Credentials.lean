/-
This file shows that requests with credentials leave no trace in the cache. While the policy does
not cache them, they are forwarded, refused or tunnelled, and none of these touches what the
store shares; the statistics are all that remembers them. The endpoints of the proxy do not look at
a request's headers, though, so a request with credentials may also tell the job to stop. Two runs
that differ only in other requests with credentials leave the same store behind, stop listening
alike and answer every other request alike, apart from those that ask for the statistics.
-/

import Cicache.Lib.Unwinding
import Cicache.Bypass
import Cicache.Listening
import Cicache.Replay

namespace Cicache

open Text Interleaving

/-! ### What the tasks do -/

/-- Whether a request carries credentials. -/
def ClientRequest.credentialed (request : ClientRequest) : Bool :=
  request.headers.contains_key .AUTHORIZATION || request.headers.contains_key .COOKIE

/-- Whether a request tells `run` to stop. -/
def ClientRequest.asksShutdown (request : ClientRequest) (tunnel_authority : Option String) :
    Bool :=
  tunnel_authority.isNone && request.method ≠ .CONNECT && request.uri.authority.isNone &&
    request.uri.path = "/__cicache/shutdown"

/-- The actions whose answers do not depend on the requests that were forwarded. -/
def Oblivious (action : Act) : Prop := action ≠ .summary

theorem Plain.oblivious {action : Act} (plain : Plain action) : Oblivious action := plain.1

/-- Forwarding, without raising a flag. -/
def Aloof (action : Act) : Prop := Forwarding action ∧ ∀ flag, action ≠ .store flag

theorem Passing.aloof {action : Act} (passes : Passing action) : Aloof action :=
  ⟨passes.forwarding, passes.raises⟩

/-! ### The tasks -/

/-- The endpoints but for the one that stops the job only read the statistics. -/
theorem control_aloof (crates : Crates) {path : String} (other : path ≠ "/__cicache/shutdown") :
    (Proxy.control crates path).Within Aloof := by
  unfold Proxy.control
  split
  · exact trivial
  · split
    · exact .act ⟨trivial, nofun⟩ fun _ => trivial
    · exact trivial

/-- A request with credentials is forwarded, whatever its URL. -/
theorem handle_aloof (crates : Crates) {proxy : Proxy} {request : ClientRequest}
    (off : proxy.policy.cache_authorized = false) (credentialed : request.credentialed = true)
    (url : Url) : (proxy.handle crates request.method request.headers url).Within Aloof := by
  unfold Proxy.handle
  refine .act ⟨trivial, nofun⟩ fun collected => ?_
  cases collected with
  | error err => exact trivial
  | ok body =>
    obtain ⟨reject, rejected⟩ := @Policy.request_eligible_of_credentials crates _ off _
      (Bool.or_eq_true_iff.mp credentialed) request.method url
    simp only [rejected]
    exact (forward_passes _ _ _ _ _).mono fun _ => Passing.aloof

theorem dispatch_aloof (crates : Crates) {proxy : Proxy} {request : ClientRequest}
    (off : proxy.policy.cache_authorized = false) (credentialed : request.credentialed = true)
    {tunnel_authority : Option String} (other : request.asksShutdown tunnel_authority = false) :
    (proxy.dispatch crates request tunnel_authority).Within Aloof := by
  unfold Proxy.dispatch
  split
  · exact (connect_passes _).mono fun _ => Passing.aloof
  · rename_i notConnect
    split
    · rename_i direct
      refine control_aloof crates fun path => ?_
      have method : request.method ≠ .CONNECT := fun same => notConnect ⟨direct.1, same⟩
      have asked : request.asksShutdown tunnel_authority = true := by
        simp [ClientRequest.asksShutdown, direct.1, method, path,
          Option.isNone_iff_eq_none.mp direct.2]
      rw [other] at asked
      cases asked
    · exact proxied_within_of_handle crates proxy _ _ (handle_aloof crates off credentialed)
        fun _ _ _ _ _ => ⟨trivial, nofun⟩

/-! ### What is hidden -/

/-- The calls of the secret numbers and the connections behind them. -/
def ofSecret (secret : Nat → Bool) : TaskId → Bool
  | .call number | .tunnel number => secret number
  | _ => false

/-- The same, and the calls of the numbers that ask for the statistics. -/
def unseen (secret asks : Nat → Bool) : TaskId → Bool
  | .call number => secret number || asks number
  | id => ofSecret secret id

/-- The actions of a task, by what kind of call it belongs to. -/
def kept (secret asks : Nat → Bool) (id : TaskId) (action : Act) : Prop :=
  match id with
  | .call number =>
      if secret number then Aloof action
      else if asks number then action = .summary
      else Oblivious action
  | .tunnel number => if secret number then Aloof action else Oblivious action
  | _ => Oblivious action

/-- What is left of the state without the statistics and the connections that belong to secret
calls. -/
def openly (secret : Nat → Bool) (world : World) : World :=
  { world with
    tunnels := world.tunnels.filter fun tunnel => !secret tunnel.1
    stats := .default }

variable {secret asks : Nat → Bool}

theorem oblivious_of_visible {id : TaskId} {action : Act} (visible : unseen secret asks id = false)
    (allowed : kept secret asks id action) : Oblivious action := by
  cases id with
  | call number =>
    obtain ⟨open', silent⟩ := Bool.or_eq_false_iff.mp visible
    simpa [kept, open', silent] using allowed
  | tunnel number =>
    have open' : secret number = false := visible
    simpa [kept, open'] using allowed
  | uploader => exact allowed
  | upload number => exact allowed

/-- A aloof action of a secret call leaves the rest of the state alone. -/
theorem openly_aloof {id : TaskId} {action : Act} {choice : Choice} {before after : World}
    {answer : Answer action} (isSecret : ofSecret secret id = true) (aloof : Aloof action)
    (result : World.exec id action choice before = some (answer, after)) :
    openly secret after = openly secret before := by
  obtain ⟨forwards, raises⟩ := aloof
  cases action with
  | store flag => exact absurd rfl (raises flag)
  | spawn_tunnel host port =>
    cases id with
    | call number =>
      cases result
      have added : (before.tunnels ++ [(number, host, port)]).filter
          (fun tunnel => !secret tunnel.1) = before.tunnels.filter fun tunnel =>
            !secret tunnel.1 := by
        have hides : secret number = true := isSecret
        rw [List.filter_append, List.filter_cons_of_neg (by simp [hides]), List.filter_nil,
          List.append_nil]
      exact congrArg (fun tunnels => { openly secret before with tunnels := tunnels }) added
    | _ => cases result
  | record => cases result; rfl
  | summary => cases result; rfl
  | elapsed => (cases choice <;> cases result); rfl
  | collect => (cases choice <;> cases result); rfl
  | send_request => (cases choice <;> cases result); rfl
  | upgrade => (cases choice <;> cases result); rfl
  | accept_tls => (cases choice <;> cases result); rfl
  | connect => (cases choice <;> cases result); rfl
  | copy_bidirectional => (cases choice <;> cases result); rfl
  | _ => cases forwards

/-- A state with other connections and statistics. -/
def overlay (world : World) (tunnels : List (Nat × String × UInt16)) (stats : Summary) : World :=
  { world with tunnels := tunnels, stats := stats }

/-- Two states are the same openly when they differ in what `openly` drops at most. -/
theorem openly_eq_iff {before other : World} :
    openly secret before = openly secret other ↔ ∃ tunnels stats,
      other = overlay before tunnels stats ∧
      (before.tunnels.filter fun tunnel => !secret tunnel.1) =
        tunnels.filter fun tunnel => !secret tunnel.1 := by
  constructor
  · intro same
    obtain ⟨_, _, _, _, _, _, _, _, _, _, _, _, tunnels, _, _, _⟩ := before
    obtain ⟨_, _, _, _, _, _, _, _, _, _, _, _, otherTunnels, stats, _, _⟩ := other
    simp only [openly, World.mk.injEq] at same
    obtain ⟨rfl, rfl, rfl, rfl, rfl, rfl, rfl, rfl, rfl, rfl, rfl, rfl, tunnelsSame, -, rfl,
      rfl⟩ := same
    exact ⟨otherTunnels, stats, rfl, tunnelsSame⟩
  · rintro ⟨tunnels, stats, rfl, tunnelsSame⟩
    simp only [openly, overlay, tunnelsSame]

/-- An action that is oblivious answers alike in states that are the same openly, and leaves them
so. -/
theorem openly_oblivious {id : TaskId} {action : Act} {choice : Choice}
    {before after other : World} {answer : Answer action} (oblivious : Oblivious action)
    (result : World.exec id action choice before = some (answer, after))
    (same : openly secret before = openly secret other) :
    ∃ later, World.exec id action choice other = some (answer, later) ∧
      openly secret after = openly secret later := by
  obtain ⟨tunnels, stats, rfl, tunnelsSame⟩ := openly_eq_iff.mp same
  cases action with
  | summary => exact absurd rfl oblivious
  | spawn_tunnel host port =>
    cases id with
    | call number =>
      cases result
      refine ⟨_, rfl, openly_eq_iff.mpr ⟨_, _, rfl, ?_⟩⟩
      change (before.tunnels ++ [_]).filter _ = (tunnels ++ [_]).filter _
      rw [List.filter_append, List.filter_append, tunnelsSame]
    | _ => cases result
  | record => cases result; exact ⟨_, rfl, same⟩
  | record_upload => cases result; exact ⟨_, rfl, same⟩
  | record_packed => cases result; exact ⟨_, rfl, same⟩
  | _ =>
    -- No other action reads or writes what the states differ in.
    simp only [World.exec] at result ⊢
    (repeat' split at result) <;> cases result <;>
      refine ⟨_, ?_, openly_eq_iff.mpr ⟨tunnels, stats, rfl, tunnelsSame⟩⟩ <;>
      first | rfl | exact if_pos (by assumption) | simp [overlay, *]

/-- Whatever arrives keeps to the actions of its number. -/
def Welcome (secret asks : Nat → Bool) (id : TaskId) (arrival : Arrival) : Prop :=
  ∀ number, id = .call number →
    (secret number = true → ∃ request tunnel_authority,
      arrival = .request request tunnel_authority ∧ request.credentialed = true ∧
        request.asksShutdown tunnel_authority = false) ∧
    (secret number = false → (asks number = true ↔ ∃ request,
      arrival = .request request none ∧ request.asksStatistics = true))

theorem call_within (crates : Crates) {proxy : Proxy}
    (off : proxy.policy.cache_authorized = false) {number : Nat} {arrival : Arrival}
    {program : Task Value} (welcome : Welcome secret asks (.call number) arrival)
    (called : Job.call crates proxy arrival = some program) :
    program.Within (kept secret asks (.call number)) := by
  obtain ⟨credentialed, statistics⟩ := welcome number rfl
  by_cases isSecret : secret number = true
  · obtain ⟨request, tunnel_authority, rfl, carries, other⟩ := credentialed isSecret
    cases called
    refine yields_within ((dispatch_aloof crates off carries other).mono fun action aloof => ?_) _
    simpa only [kept, if_pos isSecret] using aloof
  · have statistics := statistics (Bool.eq_false_iff.mpr isSecret)
    by_cases silent : asks number = true
    · obtain ⟨request, rfl, asked⟩ := statistics.mp silent
      cases called
      refine yields_within ((dispatch_asks crates proxy asked).mono fun action only => ?_) _
      simpa only [kept, if_neg isSecret, if_pos silent] using only
    · have oblivious : program.Within Oblivious := by
        by_cases loads : arrival = .load_index
        · subst loads
          cases called
          exact yields_within (load_index_within crates _
            (fun _ asking => asking.calling.plain.oblivious) fun _ => nofun) _
        · refine (call_plain called loads fun request asked => ?_).mono fun _ => Plain.oblivious
          exact Bool.eq_false_iff.mpr fun asks => silent (statistics.mpr ⟨request, asked, asks⟩)
      refine oblivious.mono fun action allowed => ?_
      simpa only [kept, if_neg isSecret, if_neg silent] using allowed

/-- The connection behind an open call is found among the open ones. -/
theorem lookup_open {number : Nat} (isOpen : secret number = false)
    (tunnels : List (Nat × String × UInt16)) :
    (tunnels.filter fun tunnel => !secret tunnel.1).lookup number = tunnels.lookup number := by
  induction tunnels with
  | nil => rfl
  | cons tunnel rest inductionHypothesis =>
    cases hides : secret tunnel.1 with
    | true =>
      have different : (number == tunnel.1) = false := by
        refine beq_false_of_ne ?_
        rintro rfl
        rw [isOpen] at hides
        cases hides
      rw [List.filter_cons_of_neg (by simp [hides]), List.lookup_cons, different,
        inductionHypothesis]
    | false =>
      rw [List.filter_cons_of_pos (by simp [hides]), List.lookup_cons, List.lookup_cons,
        inductionHypothesis]

/-- Hidden events can be purged from the runs of a job. -/
theorem unwinds (crates : Crates) {proxy : Proxy}
    (off : proxy.policy.cache_authorized = false) (secret asks : Nat → Bool) :
    Unwinds (Job.machine crates proxy) (unseen secret asks) (openly secret) (kept secret asks)
      (Welcome secret asks) where
  quiet := by
    intro id action choice before answer after hidden allowed result
    cases id with
    | call number =>
      by_cases isSecret : secret number = true
      · exact @openly_aloof _ (.call number) _ _ _ _ _ isSecret
          (by simpa only [kept, if_pos isSecret] using allowed) result
      · have silent : asks number = true := by simpa [unseen, ofSecret, isSecret] using hidden
        have only : action = .summary := by
          simpa only [kept, if_neg isSecret, if_pos silent] using allowed
        subst only
        cases result
        rfl
    | tunnel number =>
      have isSecret : secret number = true := hidden
      exact @openly_aloof _ (.tunnel number) _ _ _ _ _ isSecret
        (by simpa only [kept, if_pos isSecret] using allowed) result
    | uploader => cases hidden
    | upload number => cases hidden
  respects := by
    intro id action choice before answer after other visible allowed result same
    exact openly_oblivious (oblivious_of_visible visible allowed) result same
  again := by
    intro id value program round
    cases id with
    | uploader =>
      cases value with
      | round goes =>
        cases goes <;> cases round
        exact (yields_within (upload_round_filing _) _).mono fun _ filing => filing.plain.oblivious
      | _ => cases round
    | _ => cases round
  starts := by
    intro id arrival before program after welcome result
    rcases Job.accept_cases crates proxy result with ⟨number, rfl, called, rfl⟩ |
      ⟨number, host, port, rfl, opened, rfl, rfl⟩ |
      ⟨number, key, bytes, gha, rfl, waiting, client, rfl, rfl⟩
    · exact call_within crates off welcome called
    · refine yields_within ((serve_tunnel_passes proxy host port).mono fun action passes => ?_) _
      change if secret number = true then Aloof action else Oblivious action
      split
      · exact passes.aloof
      · exact passes.plain.oblivious
    · exact yields_within (upload_within crates (fun _ asking => asking.calling.plain.oblivious)
        (fun _ => nofun) nofun (fun _ _ => nofun) nofun gha key bytes) _
  quiet_start := by
    intro id arrival before program after hidden result
    rcases Job.accept_cases crates proxy result with ⟨number, rfl, called, rfl⟩ |
      ⟨number, host, port, rfl, opened, rfl, rfl⟩ |
      ⟨number, key, bytes, gha, rfl, waiting, client, rfl, rfl⟩
    · rfl
    · rfl
    · cases hidden
  respects_start := by
    intro id arrival before program after other visible result same
    obtain ⟨tunnels, stats, rfl, tunnelsSame⟩ := openly_eq_iff.mp same
    cases id with
    | call number =>
      obtain ⟨started, called, paired⟩ := Option.map_eq_some_iff.mp result
      cases paired
      exact ⟨_, Option.map_eq_some_iff.mpr ⟨_, called, rfl⟩, same⟩
    | tunnel number =>
      cases arrival <;> try cases result
      obtain ⟨⟨host, port⟩, opened, paired⟩ := Option.map_eq_some_iff.mp result
      cases paired
      refine ⟨_, Option.map_eq_some_iff.mpr ⟨(host, port), ?_, rfl⟩, same⟩
      rw [← lookup_open visible] at opened ⊢
      exact tunnelsSame ▸ opened
    | uploader => cases arrival <;> cases result
    | upload number =>
      cases arrival <;> try cases result
      simp only [Job.machine, Job.accept] at result ⊢
      split at result
      · cases result
        rename_i key bytes gha waiting client
        have waiting' : (overlay before tunnels stats).spawned.lookup number =
          some (key, bytes) := waiting
        rw [waiting', client]
        exact ⟨_, rfl, openly_eq_iff.mpr ⟨tunnels, stats, rfl, tunnelsSame⟩⟩
      · cases result

/-! ### Two runs of a job -/

/-- Where the secret calls are requests with credentials, none of which stops the job, two runs that
agree on all other events leave the same openly behind, and the same tasks but for the secret ones
and those that ask for the statistics. -/
theorem alike_of_agree (crates : Crates) {proxy : Proxy}
    (off : proxy.policy.cache_authorized = false) {service : Service} {built : List Built}
    {first second : List (Event TaskId Choice Arrival)}
    {one two : Config Act Answer TaskId World Value}
    (carries : ∀ number arrival, secret number = true →
      .arrive (.call number) arrival ∈ first ∨ .arrive (.call number) arrival ∈ second →
      ∃ request tunnel_authority, arrival = .request request tunnel_authority ∧
        request.credentialed = true ∧ request.asksShutdown tunnel_authority = false)
    (agree : purge (ofSecret secret) first = purge (ofSecret secret) second)
    (ranFirst : (Job.machine crates proxy).run (Job.idle proxy (Job.fresh proxy service built))
      first = some one)
    (ranSecond : (Job.machine crates proxy).run (Job.idle proxy (Job.fresh proxy service built))
      second = some two) :
    openly secret one.shared = openly secret two.shared ∧ ∀ id, ofSecret secret id = false →
      (∀ request, .arrive id (.request request none) ∈ first → request.asksStatistics = false) →
      one.tasks id = two.tasks id := by
  classical
  let asks : Nat → Bool := fun number => decide (∃ request,
    .arrive (.call number) (.request request none) ∈ first ∧ request.asksStatistics = true)
  have wider : ∀ id, ofSecret secret id = true → unseen secret asks id = true := by
    intro id hides
    cases id with
    | call number => exact Bool.or_eq_true_iff.mpr (Or.inl hides)
    | _ => exact hides
  have welcomed : ∀ id arrival, .arrive id arrival ∈ first ∨ .arrive id arrival ∈ second →
      Welcome secret asks id arrival := by
    rintro id arrival member number rfl
    refine ⟨fun isSecret => carries number arrival isSecret member, fun isOpen => ?_⟩
    have here : .arrive (.call number) arrival ∈ first :=
      member.elim id fun later => mem_of_purge_eq agree isOpen later
    constructor
    · intro asked
      obtain ⟨request, arrived, statistics⟩ := of_decide_eq_true asked
      exact ⟨request, Machine.arrive_unique ranFirst here arrived, statistics⟩
    · rintro ⟨request, rfl, statistics⟩
      exact decide_eq_true ⟨request, here, statistics⟩
  have confined : Confined (kept secret asks) (Job.idle proxy (Job.fresh proxy service built)) := by
    intro id program started
    cases id with
    | uploader =>
      cases started
      exact (yields_within (upload_round_filing _) _).mono fun _ filing => filing.plain.oblivious
    | _ => cases started
  have agreeMore : purge (unseen secret asks) first = purge (unseen secret asks) second := by
    rw [← purge_purge wider first, agree, purge_purge wider second]
  have alike := (unwinds crates off secret asks).noninterference confined welcomed agreeMore
    ranFirst ranSecond
  refine ⟨alike.shared, fun id isOpen silent => alike.tasks id ?_⟩
  cases id with
  | call number =>
    refine Bool.or_eq_false_iff.mpr ⟨isOpen, decide_eq_false ?_⟩
    rintro ⟨request, arrived, statistics⟩
    rw [silent request arrived] at statistics
    cases statistics
  | _ => exact isOpen

/-! ### Two runs of the listener -/

/-- What belongs to the secret calls, and the connections any call may come on. -/
def concealed (secret : Nat → Bool) : Happening → Bool
  | .accept _ => true
  | .request _ number _ _ => secret number
  | .moves event => ofSecret secret event.id
  | _ => false

/-- Two runs that differ in the calls of the secret numbers and the tunnels behind them, all of
which are requests with credentials, and none of which tells the job to stop. -/
structure DifferInSecrets (crates : Crates) (proxy : Proxy) (service : Service)
    (built : List Built) (loading : List (Event TaskId Choice Arrival))
    (start : Config Act Answer TaskId World Value) (secret : Nat → Bool)
    (first second : List Happening) (one two : Listener) : Prop where
  started : Started crates proxy service built loading start
  apart : ∀ number arrival, .arrive (.call number) arrival ∈ loading → secret number = false
  carries : ∀ number arrival, secret number = true →
    .arrive (.call number) arrival ∈ Listener.events first ∨
      .arrive (.call number) arrival ∈ Listener.events second →
    ∃ request tunnel_authority, arrival = .request request tunnel_authority ∧
      request.credentialed = true ∧ request.asksShutdown tunnel_authority = false
  agree : (first.filter fun happening => !concealed secret happening) =
    second.filter fun happening => !concealed secret happening
  ranFirst : Listener.run crates proxy ⟨start, [], .listening⟩ first = some one
  ranSecond : Listener.run crates proxy ⟨start, [], .listening⟩ second = some two

/-- The store is in the same state, and the service was sent the same: every entry, manifest and
pack with the same bytes. -/
structure SameStore (one two : World) : Prop where
  files : one.files = two.files
  sets : one.sets = two.sets
  queue : one.queue = two.queue
  spawned : one.spawned = two.spawned
  flags : one.flags = two.flags
  service : one.service = two.service

theorem SameStore.of_openly {one two : World} (same : openly secret one = openly secret two) :
    SameStore one two := by
  obtain ⟨tunnels, stats, rfl, -⟩ := openly_eq_iff.mp same
  exact ⟨rfl, rfl, rfl, rfl, rfl, rfl⟩

/-- The events of a run without those of the secret calls are the events of what is not concealed,
where no flush is a secret call. -/
theorem purge_events {happenings : List Happening}
    (flushes : ∀ interrupted number, .stops interrupted number ∈ happenings →
      secret number = false) :
    purge (ofSecret secret) (Listener.events happenings) =
      Listener.events (happenings.filter fun happening => !concealed secret happening) := by
  unfold purge Listener.events
  rw [List.filter_filterMap, List.filterMap_filter]
  refine List.filterMap_congr fun happening member => ?_
  cases happening with
  | accept connection => rfl
  | broken => rfl
  | returns => rfl
  | request connection number request tunnel_authority =>
    change (some (Event.arrive (TaskId.call number)
      (Arrival.request request tunnel_authority))).filter _ =
        if (!secret number) = true then _ else _
    cases hides : secret number with
    | true => exact Option.filter_some_neg (by simp [Event.id, ofSecret, hides])
    | false => exact Option.filter_some_pos (by simp [Event.id, ofSecret, hides])
  | stops interrupted number =>
    have isOpen := flushes interrupted number member
    exact Option.filter_some_pos (by simp [Event.id, ofSecret, isOpen])
  | moves event =>
    change (some event).filter _ = if (!ofSecret secret event.id) = true then _ else _
    cases hides : ofSecret secret event.id with
    | true => exact Option.filter_some_neg (by simp [hides])
    | false => exact Option.filter_some_pos (by simp [hides])

/-- Where `run` is does not depend on what is concealed. -/
theorem attend_filter (secret : Nat → Bool) (happenings : List Happening) (start : Attending) :
    happenings.foldl Listener.attend start =
      (happenings.filter fun happening => !concealed secret happening).foldl Listener.attend
        start := by
  rw [List.foldl_filter]
  congr 1
  funext attending happening
  split
  · rfl
  · rename_i hidden
    cases happening with
    | accept connection => rfl
    | request => rfl
    | moves event => rfl
    | broken => exact absurd rfl hidden
    | returns => exact absurd rfl hidden
    | stops => exact absurd rfl hidden

/-- Requests with credentials leave no trace: runs that differ in them only, and in none that tells
the job to stop, end with the same store and are equally far on their way to the end, with every
other call answered alike that does not ask for the statistics. -/
theorem credentials_leave_no_trace (crates : Crates) (proxy : Proxy)
    (off : proxy.policy.cache_authorized = false) (service : Service) (built : List Built)
    (loading : List (Event TaskId Choice Arrival))
    (start : Config Act Answer TaskId World Value) (secret : Nat → Bool)
    (first second : List Happening) (one two : Listener)
    (runs : DifferInSecrets crates proxy service built loading start secret first second one two) :
    SameStore one.job.shared two.job.shared ∧ one.attending = two.attending ∧
      ∀ id, ofSecret secret id = false →
        (∀ request, .arrive id (.request request none) ∈ Listener.events first →
          request.asksStatistics = false) →
        one.job.tasks id = two.job.tasks id := by
  have ranJob : ∀ {happenings : List Happening} {listener : Listener},
      Listener.run crates proxy ⟨start, [], .listening⟩ happenings = some listener →
      (Job.machine crates proxy).run (Job.idle proxy (Job.fresh proxy service built))
        (loading ++ Listener.events happenings) = some listener.job := by
    intro happenings listener ran
    rw [Machine.run_append, runs.started.ran, Option.bind_some]
    exact Listener.run_job ran
  have flushOpen : ∀ number, .arrive (.call number) .flush ∈ Listener.events first ∨
      .arrive (.call number) .flush ∈ Listener.events second → secret number = false := by
    intro number member
    refine Bool.eq_false_iff.mpr fun isSecret => ?_
    obtain ⟨_, _, isRequest, _⟩ := runs.carries number _ isSecret member
    cases isRequest
  have agree : purge (ofSecret secret) (loading ++ Listener.events first) =
      purge (ofSecret secret) (loading ++ Listener.events second) := by
    have events : purge (ofSecret secret) (Listener.events first) =
        purge (ofSecret secret) (Listener.events second) := by
      rw [purge_events fun _ number member => flushOpen number
          (Or.inl (List.mem_filterMap.mpr ⟨_, member, rfl⟩)),
        purge_events fun _ number member => flushOpen number
          (Or.inr (List.mem_filterMap.mpr ⟨_, member, rfl⟩)), runs.agree]
    unfold purge at events ⊢
    rw [List.filter_append, List.filter_append, events]
  have carries : ∀ number arrival, secret number = true →
      .arrive (.call number) arrival ∈ loading ++ Listener.events first ∨
        .arrive (.call number) arrival ∈ loading ++ Listener.events second →
      ∃ request tunnel_authority, arrival = .request request tunnel_authority ∧
        request.credentialed = true ∧ request.asksShutdown tunnel_authority = false := by
    intro number arrival isSecret member
    have notLoading : .arrive (.call number) arrival ∉ loading := by
      intro there
      rw [runs.apart number arrival there] at isSecret
      cases isSecret
    refine runs.carries number arrival isSecret (member.imp (fun here => ?_) fun here => ?_)
    · exact (List.mem_append.mp here).resolve_left notLoading
    · exact (List.mem_append.mp here).resolve_left notLoading
  obtain ⟨shared, tasks⟩ :=
    alike_of_agree crates off carries agree (ranJob runs.ranFirst) (ranJob runs.ranSecond)
  refine ⟨.of_openly shared, ?_, fun id isOpen silent => tasks id isOpen fun request arrived => ?_⟩
  · rw [Listener.run_attending runs.ranFirst, Listener.run_attending runs.ranSecond,
      attend_filter secret first, attend_filter secret second, runs.agree]
  · rcases List.mem_append.mp arrived with loads | later
    · rcases runs.started.loads _ _ loads with isLoad | isLoad
      · cases isLoad
      · cases isLoad
    · exact silent request later

/-! ### Runs with and without a secret -/

/-- The tasks of the secret calls, the flush, the upload loop and its uploads. -/
def besides (secret : Nat → Bool) (flusher : Nat) : TaskId → Bool
  | .call number => secret number || number = flusher
  | .tunnel number => secret number
  | .uploader => true
  | .upload _ => true

/-- Two runs in which the same other requests arrive and move on in the same order, whatever the
upload loop and the flush do meanwhile, and which both come to their end without an interrupt and
without a failure of the listener. The secret calls are any requests with credentials. -/
structure DifferInRequests (crates : Crates) (proxy : Proxy) (service : Service)
    (built : List Built) (loading : List (Event TaskId Choice Arrival))
    (start : Config Act Answer TaskId World Value) (secret : Nat → Bool) (flusher : Nat)
    (first second : List Happening) (one two : Listener) : Prop where
  started : Started crates proxy service built loading start
  carries : ∀ number arrival, secret number = true →
    .arrive (.call number) arrival ∈ Listener.events first ∨
      .arrive (.call number) arrival ∈ Listener.events second →
    ∃ request tunnel_authority, arrival = .request request tunnel_authority ∧
      request.credentialed = true
  agree : purge (besides secret flusher) (Listener.events first) =
    purge (besides secret flusher) (Listener.events second)
  told : ∀ number, .stops true number ∉ first ∧ .stops true number ∉ second ∧
    .broken ∉ first ∧ .broken ∉ second
  ranFirst : Listener.run crates proxy ⟨start, [], .listening⟩ first = some one
  ranSecond : Listener.run crates proxy ⟨start, [], .listening⟩ second = some two
  ended : one.attending = .returned ∧ two.attending = .returned

/-- What a task does, one choice after the other. -/
def moving (id : TaskId) (choices : List Choice) : List Happening :=
  choices.map fun choice => .moves (.run id choice)

/-- The events of asking for the manifest and the pack, from a service that does not answer. -/
def unanswered : List (Event TaskId Choice Arrival) :=
  [.arrive (.call 8) .load_index, .run (.call 8) .quiet, .run (.call 8) (.replied none .nothing),
    .arrive (.call 9) .load_pack, .run (.call 9) .quiet, .run (.call 9) (.replied none .nothing)]

/-- The URI of a request for the example URL through the proxy. -/
def exampleUri : Uri where
  authority := some ⟨"example.com", none⟩
  path := "/a"
  path_and_query := some "/a"
  text := "https://example.com/a"

/-- A request with credentials, and a server that refuses it. -/
def secretRequests : List Happening :=
  [.accept 1, .request 1 1 ⟨.GET, exampleUri, [(.AUTHORIZATION, IDENTITY)]⟩ none] ++
    moving (.call 1) [.collected (.ok []), .upstream (.error "refused"), .quiet]

/-- A request at an endpoint of the proxy itself. -/
def endpoint (path : String) (headers : HeaderMap) : ClientRequest :=
  ⟨.GET, ⟨none, path, some path, path⟩, headers⟩

def statisticsRequests : List Happening :=
  [.accept 0, .request 0 0 (endpoint "/__cicache/stats" []) none] ++ moving (.call 0) [.quiet]

/-- A file that never changes, as its server sends it. -/
def longLived : Upstream :=
  ⟨.OK, [(.CACHE_CONTROL, ⟨utf8 "public, immutable", by decide⟩)], some 1, .ok (utf8 "x")⟩

/-- The header of its entry. -/
def longLivedHeader : Header :=
  { exampleHeader with headers := [("cache-control", "public, immutable")] }

def longLivedJson : Bytes := utf8
  ("\x7b\"url\":\"https://example.com/a\",\"status\":200,\"headers\":[[\"cache-control\"," ++
    "\"public, immutable\"]],\"sha256\":" ++
    "\"2d711642b726b04401627ca9fbac32f5c8530fb1903cc4db02258717921a4881\"," ++
    "\"stored_at\":1700000000\x7d")

/-- The key it is stored under, and what is written there. -/
def longLivedKey : String := "t-e0ad42054349f2ece2fafb306b91fec1df2d46e7cb57d17acfe22eb954af23a9"

def longLivedEntry : Bytes :=
  Entry.MAGIC ++ leBytes 4 longLivedJson.length ++ longLivedJson ++ utf8 "x"

def storingSamples : Samples where
  digests := exampleSamples.digests
  texts := [(longLivedHeader, longLivedJson)]
  creates := [(createdText "https://blob.example/0", ⟨true, "https://blob.example/0"⟩)]
  finalizes := [(finalizedText, ⟨true⟩)]
  downloads := []
  urls := exampleSamples.urls

/-- The file is asked for, fetched and stored. -/
def storedRequests : List Happening :=
  [.request 0 0 ⟨.GET, exampleUri, []⟩ none] ++
    moving (.call 0) [.collected (.ok []), .contents none, .quiet, .upstream (.ok longLived),
      .clock 7, .clock 1700000000, .quiet, .opened true, .written none, .quiet, .quiet, .quiet]

/-- A request that tells the job to stop. -/
def stopRequests (connection number : Nat) (headers : HeaderMap) : List Happening :=
  [.request connection number (endpoint "/__cicache/shutdown" headers) none] ++
    moving (.call number) [.quiet]

/-- The upload loop ends, and the flush waits for it. -/
def joined : List Happening :=
  [.stops false 2] ++ moving (.call 2) [.quiet, .quiet] ++ moving .uploader [.quiet, .quiet] ++
    moving (.call 2) [.quiet, .quiet]

/-- The flush finds the file and stores a pack. -/
def packedFlush : List Happening :=
  joined ++ moving (.call 2) [.quiet, .listing [longLivedKey], .contents (some longLivedEntry),
    .clock 5, .quiet, .replied (some ⟨.OK, createdText "https://blob.example/0"⟩) .nothing,
      .uploaded (some .OK) true,
    .replied (some ⟨.OK, finalizedText⟩) .nothing, .quiet] ++ [.returns]

/-- Only the call with the number one is secret. -/
def onlyOne (number : Nat) : Bool := number = 1

noncomputable def storingCrates : Crates := .ofSamples storingSamples

/-- The requests that are no secret, and the flush behind them. -/
def openRequests : List Happening := storedRequests ++ stopRequests 0 3 [] ++ packedFlush

/-- With credentials on the request to stop, the flush comes before the file does. -/
def hastyRequests : List Happening :=
  [.accept 0, .accept 1] ++ stopRequests 1 1 [(.AUTHORIZATION, IDENTITY)] ++ joined ++
    moving (.call 2) [.quiet] ++ storedRequests ++ stopRequests 0 3 [] ++ [.returns]

theorem arrive_unanswered {id : TaskId} {arrival : Arrival}
    (member : .arrive id arrival ∈ unanswered) :
    (id = .call 8 ∧ arrival = .load_index) ∨ (id = .call 9 ∧ arrival = .load_pack) := by
  simpa [unanswered] using member

/-- The job that listens, when the service did not answer. -/
noncomputable def unansweredJob : Config Act Answer TaskId World Value :=
  ((Job.machine storingCrates exampleProxy).run
    (Job.idle exampleProxy (Job.fresh exampleProxy .empty [])) unanswered).getD
      (Job.idle exampleProxy (Job.fresh exampleProxy .empty []))

theorem unansweredJob_started :
    Started storingCrates exampleProxy .empty [] unanswered unansweredJob where
  loads id arrival member := (arrive_unanswered member).imp And.right And.right
  ended id arrival member := by
    rcases arrive_unanswered member with ⟨rfl, rfl⟩ | ⟨rfl, rfl⟩
    · exact ⟨_, rfl⟩
    · exact ⟨_, rfl⟩
  ran := rfl

theorem onlyOne_unanswered (number : Nat) (arrival : Arrival)
    (member : .arrive (.call number) arrival ∈ unanswered) : onlyOne number = false := by
  rcases arrive_unanswered member with ⟨same, _⟩ | ⟨same, _⟩
  · cases same
    rfl
  · cases same
    rfl

/-- Where the only request with the number one is the refused one, the secret calls carry
credentials and stop nothing. -/
theorem carries_secretRequests {first second : List Happening}
    (only : ∀ arrival, .arrive (.call 1) arrival ∈ Listener.events first ∨
      .arrive (.call 1) arrival ∈ Listener.events second →
      arrival = .request ⟨.GET, exampleUri, [(.AUTHORIZATION, IDENTITY)]⟩ none)
    (number : Nat) (arrival : Arrival) (isSecret : onlyOne number = true)
    (member : .arrive (.call number) arrival ∈ Listener.events first ∨
      .arrive (.call number) arrival ∈ Listener.events second) :
    ∃ request tunnel_authority, arrival = .request request tunnel_authority ∧
      request.credentialed = true ∧ request.asksShutdown tunnel_authority = false := by
  obtain rfl : number = 1 := of_decide_eq_true isSecret
  exact ⟨_, _, only arrival member, rfl, rfl⟩

set_option maxRecDepth 20000 in
/-- Neither the disk nor the pack tells whether a request with credentials was forwarded. -/
theorem credentials_leave_no_trace_packed : ∃ one two,
    DifferInSecrets storingCrates exampleProxy .empty [] unanswered unansweredJob onlyOne
      (.accept 0 :: openRequests) (.accept 0 :: secretRequests ++ openRequests) one two ∧
    one.attending = .returned ∧ one.job.shared.service.blobs.length = 1 ∧
      SameStore one.job.shared two.job.shared := by
  have only : ∀ arrival, .arrive (.call 1) arrival ∈ Listener.events (.accept 0 :: openRequests) ∨
      .arrive (.call 1) arrival ∈ Listener.events (.accept 0 :: secretRequests ++ openRequests) →
      arrival = .request ⟨.GET, exampleUri, [(.AUTHORIZATION, IDENTITY)]⟩ none := by
    intro arrival member
    simpa [Listener.events, Listener.jobEvent, secretRequests, openRequests, storedRequests,
      stopRequests, packedFlush, joined, moving, eq_comm] using member
  have runs : DifferInSecrets storingCrates exampleProxy .empty [] unanswered unansweredJob onlyOne
      (.accept 0 :: openRequests) (.accept 0 :: secretRequests ++ openRequests) _ _ :=
    ⟨unansweredJob_started, onlyOne_unanswered, carries_secretRequests only, rfl, rfl, rfl⟩
  exact ⟨_, _, runs, rfl, rfl, (credentials_leave_no_trace storingCrates exampleProxy rfl .empty []
    unanswered unansweredJob onlyOne _ _ _ _ runs).1⟩

/-- The answer to a request for the statistics. -/
def answered (stats : Summary) : Response where
  status := .OK
  headers := [(CONTENT_TYPE, APPLICATION_JSON)]
  body := .full (utf8 stats.pretty)

set_option maxRecDepth 20000 in
/-- Runs that differ in requests with credentials only do differ: the statistics count these
requests, and one that tells the job to stop makes it flush before it stores what it is still asked
for, so that no pack holds it. -/
theorem secrets_tell :
    (¬ ∀ (crates : Crates) (proxy : Proxy), proxy.policy.cache_authorized = false →
      ∀ (service : Service) (built : List Built) (loading : List (Event TaskId Choice Arrival))
        (start : Config Act Answer TaskId World Value) (secret : Nat → Bool)
        (first second : List Happening) (one two : Listener),
        DifferInSecrets crates proxy service built loading start secret first second one two →
        ∀ id, ofSecret secret id = false → one.job.tasks id = two.job.tasks id) ∧
    ¬ ∀ (crates : Crates) (proxy : Proxy), proxy.policy.cache_authorized = false →
      ∀ (service : Service) (built : List Built) (loading : List (Event TaskId Choice Arrival))
        (start : Config Act Answer TaskId World Value) (secret : Nat → Bool) (flusher : Nat)
        (first second : List Happening) (one two : Listener),
        DifferInRequests crates proxy service built loading start secret flusher first second one
          two →
        SameStore one.job.shared two.job.shared := by
  constructor
  · intro always
    have only : ∀ arrival, .arrive (.call 1) arrival ∈ Listener.events statisticsRequests ∨
        .arrive (.call 1) arrival ∈ Listener.events (secretRequests ++ statisticsRequests) →
        arrival = .request ⟨.GET, exampleUri, [(.AUTHORIZATION, IDENTITY)]⟩ none := by
      intro arrival member
      simpa [Listener.events, Listener.jobEvent, secretRequests, statisticsRequests, moving,
        eq_comm] using member
    have runs : DifferInSecrets storingCrates exampleProxy .empty [] unanswered
        unansweredJob onlyOne
        statisticsRequests (secretRequests ++ statisticsRequests) _ _ :=
      ⟨unansweredJob_started, onlyOne_unanswered, carries_secretRequests only, rfl, rfl, rfl⟩
    have same := always _ _ rfl _ _ _ _ _ _ _ _ _ runs (.call 0) rfl
    change (some (.finish (.response (answered .default))) : Option (Task Value)) =
      some (.finish (.response (answered (Summary.default.record (.Error "refused") 0 0)))) at same
    simp only [Option.some.injEq, Program.finish.injEq, Value.response.injEq, answered,
      Response.mk.injEq, ResBody.full.injEq] at same
    exact absurd (utf8_injective same.2.2) (by decide +kernel)
  · intro always
    have carries : ∀ number arrival, onlyOne number = true →
        .arrive (.call number) arrival ∈ Listener.events (.accept 0 :: openRequests) ∨
          .arrive (.call number) arrival ∈ Listener.events hastyRequests →
        ∃ request tunnel_authority, arrival = .request request tunnel_authority ∧
          request.credentialed = true := by
      intro number arrival isSecret member
      obtain rfl : number = 1 := of_decide_eq_true isSecret
      refine ⟨endpoint "/__cicache/shutdown" [(.AUTHORIZATION, IDENTITY)], none, ?_, rfl⟩
      simpa [Listener.events, Listener.jobEvent, openRequests, hastyRequests, storedRequests,
        stopRequests, packedFlush, joined, moving, eq_comm] using member
    have told : ∀ number, .stops true number ∉ .accept 0 :: openRequests ∧
        .stops true number ∉ hastyRequests ∧ .broken ∉ .accept 0 :: openRequests ∧
        .broken ∉ hastyRequests := by
      simp [openRequests, hastyRequests, storedRequests, stopRequests, packedFlush, joined, moving]
    have runs : DifferInRequests storingCrates exampleProxy .empty [] unanswered
        unansweredJob onlyOne
        2 (.accept 0 :: openRequests) hastyRequests _ _ :=
      ⟨unansweredJob_started, carries, rfl, told, rfl, rfl, rfl, rfl⟩
    have same := (always _ _ rfl _ _ _ _ _ _ _ _ _ _ runs).service
    have blobs := congrArg (fun service => service.blobs.length) same
    change 1 = 0 at blobs
    cases blobs

end Cicache
