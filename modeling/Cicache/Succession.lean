/-
This file follows what a service holds from job to job. When a job begins, the service holds what
the jobs before it have written, and the job adds nothing but what it builds itself. So however many
jobs have run one after another, and wherever each of them was cut off, a hit replays an entry that
one of them has built for the URL that was asked for.
-/

import Cicache.Chain
import Cicache.Origins

namespace Cicache

open Text Interleaving

/-! ### What is written of what is built -/

section Authored

variable {crates : Crates} {ledger whole : Ledger crates} {key : String} {bytes : Bytes}

theorem Ledger.Original.mono (original : ledger.Original key bytes)
    (builds : ∀ built, ledger.builds built → whole.builds built)
    (same : ledger.key_prefix = whole.key_prefix) : whole.Original key bytes := by
  obtain ⟨built, url, builtBefore, named, keyed, encoded⟩ := original
  refine ⟨built, url, builds built builtBefore, named, ?_, encoded⟩
  rw [keyed, Ledger.key, Ledger.key, same]

/-- What belongs under a name of fewer entries belongs there of more. -/
theorem Ledger.Genuine.mono (genuine : ledger.Genuine key bytes)
    (builds : ∀ built, ledger.builds built → whole.builds built)
    (same : ledger.key_prefix = whole.key_prefix) : whole.Genuine key bytes := by
  have sameKey : ∀ url, whole.key url = ledger.key url := by
    intro url
    rw [Ledger.key, Ledger.key, same]
  have sameFront : whole.front "pack" = ledger.front "pack" := by
    rw [Ledger.front, Ledger.front, same]
  refine ⟨fun isKey => ?_, fun starts small mode objects read object member => ?_⟩
  · obtain ⟨url, keyed⟩ := isKey
    exact (genuine.1 ⟨url, keyed.trans (sameKey url)⟩).mono builds same
  · obtain ⟨all, original, begins⟩ :=
      genuine.2 (sameFront ▸ starts) small mode objects read object member
    exact ⟨all, original.mono builds same, begins⟩

theorem Filed.mono {fit more : String → Bytes → Prop} {base service : Service}
    (filed : Filed fit base service) (fits : ∀ name data, fit name data → more name data) :
    Filed more base service where
  reserved := filed.reserved
  entries := filed.entries
  orderly := filed.orderly
  blobs url name data reserved stored := fits name data (filed.blobs url name data reserved stored)
  fits item member := fits item.1 item.2 (filed.fits item member)

end Authored

/-! ### One job after another -/

section Succession

variable (crates : Crates) ( key_prefix : String)

/-- Whatever the service holds, or has been sent so far, was written by the program of entries that
were built. -/
def Authored (earlier : Built → Prop) (service : Service) : Prop :=
  Filed (Ledger.Genuine (⟨earlier, key_prefix⟩ : Ledger crates)) .empty service

/-- What a job builds that finds the service so. -/
def Builds (proxy : Proxy) (service : Service) (events : List (Event TaskId Choice Arrival))
    (built : Built) : Prop :=
  ∃ id, (id, ⟨.build_entry built.url built.status built.headers built.body, built.stored_at⟩) ∈
    (Job.machine crates proxy).history (Job.idle proxy (Job.fresh proxy service [])) events

/-- A job of the prefix, from its beginning to where it is cut off, with an honest service. -/
structure Turn (proxy : Proxy) (service : Service) (events : List (Event TaskId Choice Arrival))
    (after : Config Act Answer TaskId World Value) : Prop where
  files : proxy.policy.key_prefix = key_prefix
  names : proxy.store.config.key_prefix = key_prefix
  ran : (Job.machine crates proxy).run (Job.idle proxy (Job.fresh proxy service [])) events =
    some after
  honest : (Job.machine crates proxy).Permitting
    (Permits (Honestly crates) fun _ _ arrival => arrival.Proxied)
    (Job.idle proxy (Job.fresh proxy service [])) events

/-- The service after any number of jobs, with the entries that they have built. -/
inductive Succession : (Built → Prop) → Service → Prop
  | start {earlier : Built → Prop} {service : Service} :
      Authored crates key_prefix earlier service → Succession earlier service
  | next {earlier : Built → Prop} {proxy : Proxy} {service : Service}
      {events : List (Event TaskId Choice Arrival)}
      {after : Config Act Answer TaskId World Value} :
      Succession earlier service → Turn crates key_prefix proxy service events after →
        Succession (fun built => earlier built ∨ Builds crates proxy service events built)
          after.shared.service

variable {crates key_prefix} {earlier : Built → Prop} {proxy : Proxy} {service : Service}
variable {events : List (Event TaskId Choice Arrival)}
variable {after : Config Act Answer TaskId World Value}

/-- What was built before a job and what it builds. -/
abbrev ledgerAfter (crates : Crates) ( key_prefix : String) (earlier : Built → Prop) (proxy : Proxy)
    (service : Service) (events : List (Event TaskId Choice Arrival)) : Ledger crates where
  builds built := earlier built ∨ Builds crates proxy service events built
  key_prefix := key_prefix

/-- A job is faithful to what was built before it and to what it builds. -/
theorem Turn.faithful (lawful : crates.Lawful) (flat : '/' ∉ key_prefix.toList)
    (authored : Authored crates key_prefix earlier service)
    (turn : Turn crates key_prefix proxy service events after) :
    Guarded (World.Acts (Attributed (ledgerAfter crates key_prefix earlier proxy service events)))
      (Faithful (ledgerAfter crates key_prefix earlier proxy service events) proxy.store)
      (fun _ => Grows)
      (fun id value _ => Concludes (ledgerAfter crates key_prefix earlier proxy service events)
        (fun id arrival => .arrive id arrival ∈ events) id value) after := by
  have permitting : (Job.machine crates proxy).Permitting
      (Permits (Attributed (ledgerAfter crates key_prefix earlier proxy service events))
        fun _ id arrival => .arrive id arrival ∈ events ∧ arrival.Proxied)
      (Job.idle proxy (Job.fresh proxy service [])) events := by
    intro front event back config parts ranFront
    have permits := turn.honest front event back config parts ranFront
    have member : event ∈ events := parts ▸ List.mem_append_right _ List.mem_cons_self
    cases event with
    | arrive id arrival => exact ⟨member, permits⟩
    | run id choice =>
      intro action next task
      refine ⟨permits action next task, ?_⟩
      split
      · rename_i url status headers body time
        refine Or.inr ⟨id, parts ▸ Machine.mem_history ranFront (parts ▸ turn.ran) ?_⟩
        exact Machine.performed_acted task rfl
      · trivial
  have filed : Filed (ledgerAfter crates key_prefix earlier proxy service events).Genuine .empty
      service :=
    authored.mono fun name data genuine => genuine.mono (fun _ => Or.inl) rfl
  refine Guarded.reaches (guards_faithful lawful flat turn.files turn.names ?_)
    (guarded_fresh flat filed []) (permitting.reaches turn.ran)
  exact fun _ _ _ hasFirst hasSecond => Machine.arrive_unique turn.ran hasFirst hasSecond

/-- What a job leaves behind was written by it or by those before it. -/
theorem Turn.authored (lawful : crates.Lawful) (flat : '/' ∉ key_prefix.toList)
    (authored : Authored crates key_prefix earlier service)
    (turn : Turn crates key_prefix proxy service events after) :
    Authored crates key_prefix
      (fun built => earlier built ∨ Builds crates proxy service events built)
      after.shared.service :=
  (turn.faithful lawful flat authored).shared.1

/-- What any number of jobs leave behind, they have written. -/
theorem Succession.authored (lawful : crates.Lawful) (flat : '/' ∉ key_prefix.toList)
    (succession : Succession crates key_prefix earlier service) :
    Authored crates key_prefix earlier service := by
  induction succession with
  | start authored => exact authored
  | next _ turn inductionHypothesis => exact turn.authored lawful flat inductionHypothesis

/-- However many jobs have run on a service, a hit replays an entry that one of them, or the job
itself, has built for the URL that was asked for, up to its fragment and a default port. -/
theorem hit_was_built (lawful : crates.Lawful) (flat : '/' ∉ key_prefix.toList)
    (succession : Succession crates key_prefix earlier service)
    (turn : Turn crates key_prefix proxy service events after)
    {number : Nat} {request : ClientRequest} {tunnel_authority : Option String}
    {response : Response}
    (arrived : .arrive (.call number) (.request request tunnel_authority) ∈ events)
    (answered : after.tasks (.call number) = some (.finish (.response response)))
    (hit : response.IsHit) :
    ∃ (url other : Url) (built : Built),
      absolute_url crates request.uri tunnel_authority = .ok url ∧
      (earlier built ∨ Builds crates proxy service events built) ∧
      built.url = other.as_str ∧ normalize other = normalize url ∧
      response = replay (built.entry crates) ∧ response.body = .full built.body := by
  have guarded := turn.faithful lawful flat (succession.authored lawful flat)
  obtain ⟨url, parsed, built, other, builds, named, same, rfl⟩ :=
    guarded.finished Grows.isRely answered request tunnel_authority response arrived rfl hit
  exact ⟨url, other, built, parsed, builds, named, same, rfl, rfl⟩

end Succession

/-! ### A second job -/

/-- The next step is honest, and what arrives comes through the proxy. -/
def serving (crates : Crates) (config : Config Act Answer TaskId World Value) :
    Event TaskId Choice Arrival → Bool
  | .run id choice =>
      match config.tasks id with
      | some (.perform action _) => honest crates config.shared action choice
      | _ => true
  | .arrive _ arrival => decide arrival.Proxied

theorem permits_of_serving {crates : Crates} (config : Config Act Answer TaskId World Value)
    (event : Event TaskId Choice Arrival) (checked : serving crates config event = true) :
    Permits (Honestly crates) (fun _ _ arrival => arrival.Proxied) config event := by
  cases event with
  | run id choice =>
    intro action next task
    rw [serving, task] at checked
    exact checked
  | arrive id arrival =>
    have proxied : arrival.Proxied := of_decide_eq_true checked
    exact proxied

/-- The first job stores the response and files its manifest. -/
def filingRuns : List (Event TaskId Choice Arrival) :=
  fetchedRuns ++ uploadedRuns ++ flushRuns ++
    manifestRuns [exampleKey] "t-index-job-0-1" "https://blob.example/1"

set_option maxRecDepth 20000 in
/-- A job stores the response, and the next one answers the request from the cache. -/
theorem served_later : ∃ (first second : Config Act Answer TaskId World Value)
    (entry : Entry servingCrates),
    Turn servingCrates "t" storingProxy .empty filingRuns first ∧
      Turn servingCrates "t" storingProxy first.shared.service servedRuns second ∧
      second.tasks (.call 1) = some (.finish (.response (replay entry))) := by
  obtain ⟨first, ran, second, ranLater, entry, answered⟩ :
      ∃ first, (Job.machine servingCrates storingProxy).runChecked (serving servingCrates)
          (Job.idle storingProxy (Job.fresh storingProxy .empty [])) filingRuns = some first ∧
        ∃ second, (Job.machine servingCrates storingProxy).runChecked (serving servingCrates)
          (Job.idle storingProxy (Job.fresh storingProxy first.shared.service [])) servedRuns =
            some second ∧
        ∃ entry : Entry servingCrates,
          second.tasks (.call 1) = some (.finish (.response (replay entry))) :=
    ⟨_, rfl, _, rfl, _, rfl⟩
  have stored := Machine.Permitting.of_runChecked permits_of_serving ran
  have served := Machine.Permitting.of_runChecked permits_of_serving ranLater
  exact ⟨first, second, entry, ⟨rfl, rfl, stored.1, stored.2⟩, ⟨rfl, rfl, served.1, served.2⟩,
    answered⟩

/-- What the second job replays was built by the first one or by itself. -/
theorem hit_was_built_later : ∃ (first : Config Act Answer TaskId World Value)
    (url other : Url) (built : Built),
    absolute_url servingCrates exampleRequest.uri none = .ok url ∧
      (Builds servingCrates storingProxy .empty filingRuns built ∨
        Builds servingCrates storingProxy first.shared.service servedRuns built) ∧
      built.url = other.as_str ∧ normalize other = normalize url := by
  obtain ⟨first, second, entry, stored, served, answered⟩ := served_later
  have succession : Succession servingCrates "t" (fun built => False ∨
      Builds servingCrates storingProxy .empty filingRuns built) first.shared.service :=
    .next (.start (filed_self Service.orderly_empty)) stored
  have arrived : .arrive (.call 1) (.request exampleRequest none) ∈ servedRuns := by
    simp [servedRuns]
  obtain ⟨url, other, built, parsed, builds, named, same, -, -⟩ :=
    hit_was_built servingCrates_lawful (by decide) succession served arrived answered
      (replay_isHit entry)
  exact ⟨first, url, other, built, parsed, by simpa using builds, named, same⟩

end Cicache
