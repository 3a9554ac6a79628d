/-
This file models the certificate authority: the certificate it generates for itself, and the
configurations it mints for the hosts that are connected to, each kept for the run once it is there.
Connections ask for their configurations at the same time. What a client makes of a certificate is
stated apart from the program, as the checks it makes against the root it was told to trust.
-/

import Cicache.Lib.Arrivals

namespace Cicache

open Interleaving

/-! ### Certificates -/

/-- A stretch of time, in seconds. -/
def days (count : Int) : Int := count * 86400

inductive DnType where
  | CommonName
  | OrganizationName
  deriving DecidableEq

inductive IsCa where
  | NoCa
  | Unconstrained
  deriving DecidableEq

inductive KeyUsagePurpose where
  | KeyCertSign
  | CrlSign
  | DigitalSignature
  | KeyEncipherment
  deriving DecidableEq

inductive ExtendedKeyUsagePurpose where
  | ServerAuth
  deriving DecidableEq

/-- What a certificate is issued for: a name, or an address. -/
inductive SanType where
  | DnsName (name : String)
  | IpAddress (address : String)
  deriving DecidableEq

/-- A key pair, by a number of its own. -/
abbrev KeyPair := Nat

/-- What is asked of a certificate; the times are in seconds since the epoch. -/
structure CertificateParams where
  distinguished_name : List (DnType × String)
  subject_alt_names : List SanType
  is_ca : IsCa
  use_authority_key_identifier_extension : Bool
  key_usages : List KeyUsagePurpose
  extended_key_usages : List ExtendedKeyUsagePurpose
  not_before : Int
  not_after : Int
  deriving DecidableEq

/-- A certificate: what was asked for, the key it is for, the name and the key of its issuer, and
the number it was given. -/
structure Certificate where
  params : CertificateParams
  key : KeyPair
  issuer : List (DnType × String)
  signed_with : KeyPair
  serial_number : Nat
  deriving DecidableEq

/-- The crate that makes the certificates. They are for what is asked and for the key, and signed
with the issuer's key under the issuer's name; the numbers are the crate's own. -/
structure Rcgen where
  self_signed : CertificateParams → KeyPair → Certificate
  signed_by : CertificateParams → KeyPair → Certificate → KeyPair → Certificate
  self_signed_params : ∀ params key, (self_signed params key).params = params
  self_signed_key : ∀ params key, (self_signed params key).key = key
  signed_by_params : ∀ params key issuer issuer_key,
    (signed_by params key issuer issuer_key).params = params
  signed_by_key : ∀ params key issuer issuer_key,
    (signed_by params key issuer issuer_key).key = key
  signed_by_issuer : ∀ params key issuer issuer_key,
    (signed_by params key issuer issuer_key).issuer = issuer.params.distinguished_name
  signed_by_signed_with : ∀ params key issuer issuer_key,
    (signed_by params key issuer issuer_key).signed_with = issuer_key

/-- `rustls::ServerConfig`. -/
structure ServerConfig where
  cert_chain : List Certificate
  key : KeyPair
  alpn_protocols : List String
  deriving DecidableEq

def CA_COMMON_NAME : String := "cicache local CA"

/-- The authority, without the configurations it keeps. -/
structure Ca where
  cert : Certificate
  key : KeyPair
  deriving DecidableEq

namespace Ca

/-- What is asked of the authority's own certificate: it is valid from the start of 2020 to that of
2035. -/
def ca_params : CertificateParams where
  distinguished_name := [(.CommonName, CA_COMMON_NAME), (.OrganizationName, "cicache")]
  subject_alt_names := []
  is_ca := .Unconstrained
  use_authority_key_identifier_extension := false
  key_usages := [.KeyCertSign, .CrlSign, .DigitalSignature]
  extended_key_usages := []
  not_before := days 18262
  not_after := days 23741

/-- `Ca::generate`, of the key, if one was generated, and whether it could be signed with. -/
def generate (rcgen : Rcgen) (key : Option KeyPair) (signs : Bool) : Except String Ca :=
  match key with
  | none => .error "generating CA key"
  | some key =>
    if signs then .ok ⟨rcgen.self_signed ca_params key, key⟩ else .error "self-signing CA"

/-- What is asked of the certificate for a host: it is valid for a day before now, and for 300 days
from now on. -/
def leaf_params (host : String) (san : SanType) (now : Int) : CertificateParams where
  distinguished_name := [(.CommonName, host)]
  subject_alt_names := [san]
  is_ca := .NoCa
  use_authority_key_identifier_extension := true
  key_usages := [.DigitalSignature, .KeyEncipherment]
  extended_key_usages := [.ServerAuth]
  not_before := now - days 1
  not_after := now + days 300

/-! ### Minting -/

/-- The configurations that are kept, and the times that the clock has read. -/
structure Minted where
  configs : String → Option ServerConfig
  readings : List Int

/-- The atomic actions: on the map of configurations, on the clock, and the calls that can fail. -/
inductive Act where
  | get (host : String)
  | generate
  | now_utc
  | signed_by (params : CertificateParams) (key : KeyPair)
  | with_single_cert (chain : List Certificate) (key : KeyPair)
  | insert (host : String) (config : ServerConfig)

@[reducible] def Answer : Act → Type
  | .get _ => Option ServerConfig
  | .generate => Option KeyPair
  | .now_utc => Int
  | .signed_by _ _ => Bool
  | .with_single_cert _ _ => Bool
  | .insert _ _ => Unit

/-- What the environment decides: that a call fails or does not, a key, or the time. -/
inductive Choice where
  | done
  | fails
  | key (key : KeyPair)
  | time (now : Int)

/-- One action. Nothing is assumed of the clock, not that it goes forward either. -/
def exec (_ : Nat) (action : Act) (choice : Choice) (minted : Minted) :
    Option (Answer action × Minted) :=
  match action, choice with
  | .get host, .done => some (minted.configs host, minted)
  | .generate, .key key => some (some key, minted)
  | .generate, .fails => some (none, minted)
  | .now_utc, .time now => some (now, { minted with readings := now :: minted.readings })
  | .signed_by _ _, .done => some (true, minted)
  | .signed_by _ _, .fails => some (false, minted)
  | .with_single_cert _ _, .done => some (true, minted)
  | .with_single_cert _ _, .fails => some (false, minted)
  | .insert host config, .done =>
      some ((), { minted with configs := Function.update minted.configs host (some config) })
  | _, _ => none

/-- What a call of `server_config` returns. -/
abbrev Value := Except String ServerConfig

abbrev Task := Program Act Answer Value

abbrev act (action : Act) : Program Act Answer (Answer action) := Program.act action

section Server

variable (subject_alt_name : String → Option SanType) (rcgen : Rcgen) (ca : Ca)

/-- TLS server configuration presenting a freshly minted certificate for `host`. What the host is
read as, `CertificateParams::new` decides. -/
def server_config (host : String) : Task := do
  match ← act (.get host) with
  | some existing => return .ok existing
  | none =>
    match ← act .generate with
    | none => return .error "generating leaf key"
    | some leaf_key =>
      match subject_alt_name host with
      | none => return .error "building leaf params"
      | some san =>
        let now ← act .now_utc
        let params := leaf_params host san now
        if ← act (.signed_by params leaf_key) then
          let leaf := rcgen.signed_by params leaf_key ca.cert ca.key
          let chain := [leaf, ca.cert]
          if ← act (.with_single_cert chain leaf_key) then
            let config : ServerConfig := ⟨chain, leaf_key, ["http/1.1"]⟩
            act (.insert host config)
            return .ok config
          else return .error "building rustls server config"
        else return .error ("signing leaf certificate for " ++ host)

/-- The calls of `server_config`, each a task of its own. -/
def machine : Machine Act Answer Nat Minted Choice String Value where
  exec := exec
  again _ _ := none
  accept _ host minted := some (server_config subject_alt_name rcgen ca host, minted)

/-- The authority before the first call. -/
def fresh : Config Act Answer Nat Minted Value where
  shared := ⟨fun _ => none, []⟩
  tasks _ := none

end Server

/-! ### What a client checks -/

/-- The time is within what the certificate is valid for. -/
def Current (cert : Certificate) (time : Int) : Prop :=
  cert.params.not_before ≤ time ∧ time ≤ cert.params.not_after

/-- The root vouches for the certificate. -/
structure Certifies (root leaf : Certificate) : Prop where
  issuer : leaf.issuer = root.params.distinguished_name
  signature : leaf.signed_with = root.key
  authority : root.params.is_ca = .Unconstrained
  usage : .KeyCertSign ∈ root.params.key_usages

/-- The certificate is one for a server, and not for longer than a platform's verifier puts up with:
398 days. -/
structure Serves (leaf : Certificate) : Prop where
  ends : leaf.params.is_ca = .NoCa
  usage : .DigitalSignature ∈ leaf.params.key_usages
  purpose : .ServerAuth ∈ leaf.params.extended_key_usages
  short : leaf.params.not_after - leaf.params.not_before ≤ days 398

/-- A client that trusts the root takes the chain for one of the host at this time. -/
def Accepts (subject_alt_name : String → Option SanType) (root : Certificate) (host : String)
    (time : Int) (chain : List Certificate) : Prop :=
  ∃ leaf issuers, chain = leaf :: issuers ∧ Certifies root leaf ∧ Serves leaf ∧
    (∃ san ∈ leaf.params.subject_alt_names, subject_alt_name host = some san) ∧
    Current root time ∧ Current leaf time

section Calls

variable {subject_alt_name : String → Option SanType} {rcgen : Rcgen} {ca : Ca}

/-- The configuration that is minted for a host. -/
def presented (rcgen : Rcgen) (ca : Ca) (host : String) (san : SanType) (key : KeyPair)
    (now : Int) : ServerConfig where
  cert_chain := [rcgen.signed_by (leaf_params host san now) key ca.cert ca.key, ca.cert]
  key := key
  alpn_protocols := ["http/1.1"]

/-- A configuration that was minted for the host, at a time that the clock read. -/
def Issued (subject_alt_name : String → Option SanType) (rcgen : Rcgen) (ca : Ca) (minted : Minted)
    (host : String) (config : ServerConfig) : Prop :=
  ∃ key now san, now ∈ minted.readings ∧ subject_alt_name host = some san ∧
    config = presented rcgen ca host san key now

/-- Every configuration that is kept was minted for the host it is kept for. -/
def Keeps (subject_alt_name : String → Option SanType) (rcgen : Rcgen) (ca : Ca) (minted : Minted) :
    Prop :=
  ∀ host config, minted.configs host = some config →
    Issued subject_alt_name rcgen ca minted host config

/-- What a call may rely on: no reading is forgotten, and no host's configuration is removed. -/
def Rely (_ : Nat) (before after : Minted) : Prop :=
  before.readings ⊆ after.readings ∧
    ∀ host, (before.configs host).isSome = true → (after.configs host).isSome = true

theorem rely_isRely : IsRely Rely where
  refl _ _ := ⟨List.Subset.refl _, fun _ kept => kept⟩
  trans _ _ _ _ first second :=
    ⟨fun _ read => second.1 (first.1 read), fun host kept => second.2 host (first.2 host kept)⟩

theorem Issued.later {before after : Minted} {host : String} {config : ServerConfig}
    (issued : Issued subject_alt_name rcgen ca before host config)
    (readings : before.readings ⊆ after.readings) :
    Issued subject_alt_name rcgen ca after host config := by
  obtain ⟨key, now, san, read, named, rfl⟩ := issued
  exact ⟨key, now, san, readings read, named, rfl⟩

/-- What a call has returned: a configuration for its host, and there is one kept from then on. -/
def Returned (subject_alt_name : String → Option SanType) (rcgen : Rcgen) (ca : Ca) (host : String)
    (value : Value) (minted : Minted) : Prop :=
  ∀ config, value = .ok config →
    Issued subject_alt_name rcgen ca minted host config ∧ (minted.configs host).isSome = true

/-- What an action does, as the environment decides. -/
def Acts (id : Nat) (action : Act) (before : Minted) (answer : Answer action) (after : Minted) :
    Prop := ∃ choice, exec id action choice before = some (answer, after)

/-- An action that changes neither the map nor the readings. -/
theorem quiet_of_acts {id : Nat} {action : Act} {before after : Minted} {answer : Answer action}
    (acted : Acts id action before answer after)
    (quiet : ∀ host config, action ≠ .insert host config)
    (timeless : action ≠ .now_utc) : after = before := by
  obtain ⟨choice, result⟩ := acted
  cases action with
  | insert host config => exact absurd rfl (quiet host config)
  | now_utc => exact absurd rfl timeless
  | _ => cases choice <;> cases result <;> rfl

theorem failed_safe {id : Nat} {host message : String} {minted : Minted} :
    Safe Acts (Keeps subject_alt_name rcgen ca) Rely id (Returned subject_alt_name rcgen ca host)
      (.finish (.error message) : Task) minted := by
  rintro now kept relied config ⟨⟩

theorem returned_later {id : Nat} {host : String} {value : Value} {before after : Minted}
    (returned : Returned subject_alt_name rcgen ca host value before)
    (relied : Rely id before after) :
    Returned subject_alt_name rcgen ca host value after :=
  fun config same => (returned config same).imp (fun issued => issued.later relied.1)
    (relied.2 host)

/-- Keeping a configuration that was minted for its host. -/
theorem inserted {minted : Minted} {host : String} {config : ServerConfig}
    (kept : Keeps subject_alt_name rcgen ca minted)
    (issued : Issued subject_alt_name rcgen ca minted host config)
    {id : Nat} {choice : Choice} {answer : Unit} {after : Minted}
    (result : exec id (.insert host config) choice minted = some (answer, after)) :
    Keeps subject_alt_name rcgen ca after ∧ (∀ other, Rely other minted after) ∧
      Returned subject_alt_name rcgen ca host (.ok config) after := by
  cases choice <;> cases result
  refine ⟨?_, fun _ => ⟨List.Subset.refl _, ?_⟩, ?_⟩
  · intro other also found
    by_cases same : other = host
    · subst same
      simp only [Function.update_self, Option.some_inj] at found
      exact found ▸ issued
    · simp only [Function.update_of_ne same] at found
      exact kept other also found
  · intro other there
    by_cases same : other = host
    · subst same
      simp only [Function.update_self, Option.isSome_some]
    · simp only [Function.update_of_ne same]
      exact there
  · rintro _ ⟨⟩
    refine ⟨issued, ?_⟩
    simp only [Function.update_self, Option.isSome_some]

theorem server_config_safe (id : Nat) (host : String) (minted : Minted) :
    Safe Acts (Keeps subject_alt_name rcgen ca) Rely id (Returned subject_alt_name rcgen ca host)
      (server_config subject_alt_name rcgen ca host) minted := by
  -- an action that changes nothing is tolerated
  have still : ∀ {now : Minted}, Keeps subject_alt_name rcgen ca now →
      Keeps subject_alt_name rcgen ca now ∧ ∀ other, other ≠ id → Rely other now now :=
    fun kept => ⟨kept, fun other _ => rely_isRely.refl other _⟩
  refine Safe.act fun now found after kept _ acted => ?_
  obtain ⟨choice, result⟩ := acted
  cases choice <;> cases result
  refine ⟨(still kept).1, (still kept).2, ?_⟩
  cases there : now.configs host with
  | some existing =>
    exact Safe.finish fun later _ relied => returned_later
      (fun config same => by cases same; exact ⟨kept host _ there, by rw [there]; rfl⟩) relied
  | none =>
    refine Safe.act fun now key after kept _ acted => ?_
    obtain rfl := quiet_of_acts acted (by rintro _ _ ⟨⟩) (by rintro ⟨⟩)
    refine ⟨(still kept).1, (still kept).2, ?_⟩
    cases key with
    | none => exact failed_safe
    | some leaf_key =>
      dsimp only
      cases named : subject_alt_name host with
      | none => exact failed_safe
      | some san =>
        refine Safe.act fun before time after kept _ acted => ?_
        obtain ⟨choice, result⟩ := acted
        cases choice <;> cases result
        have grown : before.readings ⊆ time :: before.readings := List.subset_cons_self ..
        refine ⟨fun other config found => (kept other config found).later grown,
          fun other _ => ⟨grown, fun _ kept => kept⟩, ?_⟩
        refine Safe.act fun now signs after kept relied acted => ?_
        obtain rfl := quiet_of_acts acted (by rintro _ _ ⟨⟩) (by rintro ⟨⟩)
        refine ⟨(still kept).1, (still kept).2, ?_⟩
        have read : time ∈ after.readings := relied.1 List.mem_cons_self
        cases signs with
        | false => exact failed_safe
        | true =>
          refine Safe.act fun now fits after kept relied acted => ?_
          obtain rfl := quiet_of_acts acted (by rintro _ _ ⟨⟩) (by rintro ⟨⟩)
          refine ⟨(still kept).1, (still kept).2, ?_⟩
          have read : time ∈ after.readings := relied.1 read
          cases fits with
          | false => exact failed_safe
          | true =>
            refine Safe.act fun now _ after kept relied acted => ?_
            have issued : Issued subject_alt_name rcgen ca now host
                (presented rcgen ca host san leaf_key time) :=
              ⟨leaf_key, time, san, relied.1 read, named, rfl⟩
            obtain ⟨choice, result⟩ := acted
            obtain ⟨keeps, tolerated, returned⟩ := inserted kept issued result
            exact ⟨keeps, fun other _ => tolerated other,
              Safe.finish fun later _ relied => returned_later returned relied⟩

theorem exists_of_generate {key : Option KeyPair} {signs : Bool}
    (made : generate rcgen key signs = .ok ca) :
    ∃ ca_key, ca = ⟨rcgen.self_signed ca_params ca_key, ca_key⟩ := by
  cases key with
  | none => cases made
  | some ca_key =>
    cases signs <;> cases made
    exact ⟨ca_key, rfl⟩

/-- A generated authority vouches for what is minted. -/
theorem presented_certifies {key : Option KeyPair} {signs : Bool}
    (made : generate rcgen key signs = .ok ca) (host : String) (san : SanType) (leaf_key : KeyPair)
    (now : Int) :
    Certifies ca.cert (rcgen.signed_by (leaf_params host san now) leaf_key ca.cert ca.key) := by
  obtain ⟨ca_key, rfl⟩ := exists_of_generate made
  constructor
  · exact rcgen.signed_by_issuer ..
  · rw [rcgen.signed_by_signed_with, rcgen.self_signed_key]
  · rw [rcgen.self_signed_params]
    rfl
  · rw [rcgen.self_signed_params]
    exact List.mem_cons_self

/-- What is minted is for a server, and for 301 days. -/
theorem presented_serves (host : String) (san : SanType) (leaf_key : KeyPair) (now : Int) :
    Serves (rcgen.signed_by (leaf_params host san now) leaf_key ca.cert ca.key) := by
  constructor
  · rw [rcgen.signed_by_params]
    rfl
  · rw [rcgen.signed_by_params]
    exact List.mem_cons_self
  · rw [rcgen.signed_by_params]
    exact List.mem_cons_self
  · rw [rcgen.signed_by_params]
    show now + days 300 - (now - days 1) ≤ days 398
    simp only [days]
    omega

theorem presented_accepts {key : Option KeyPair} {signs : Bool}
    (made : generate rcgen key signs = .ok ca) (host other : String) (san : SanType)
    (leaf_key : KeyPair) (now time : Int) :
    Accepts subject_alt_name ca.cert other time
        (presented rcgen ca host san leaf_key now).cert_chain ↔
      subject_alt_name other = some san ∧ (days 18262 ≤ time ∧ time ≤ days 23741) ∧
        now - days 1 ≤ time ∧ time ≤ now + days 300 := by
  have certifies := presented_certifies made host san leaf_key now
  obtain ⟨ca_key, rfl⟩ := exists_of_generate made
  have rootIs : Current (rcgen.self_signed ca_params ca_key) time ↔
      days 18262 ≤ time ∧ time ≤ days 23741 := by
    rw [Current, rcgen.self_signed_params]
    rfl
  have leafIs : Current (rcgen.signed_by (leaf_params host san now) leaf_key
      (rcgen.self_signed ca_params ca_key) ca_key) time ↔
      now - days 1 ≤ time ∧ time ≤ now + days 300 := by
    rw [Current, rcgen.signed_by_params]
    rfl
  constructor
  · rintro ⟨leaf, issuers, chain, -, -, ⟨named, member, same⟩, root, current⟩
    cases chain
    rw [rcgen.signed_by_params] at member
    rw [List.mem_singleton.mp member] at same
    exact ⟨same, rootIs.mp root, leafIs.mp current⟩
  · rintro ⟨same, root, current⟩
    refine ⟨_, _, rfl, certifies, presented_serves host san leaf_key now, ⟨san, ?_, same⟩,
      rootIs.mpr root, leafIs.mpr current⟩
    rw [rcgen.signed_by_params]
    exact List.mem_cons_self

theorem guards (hosts : Nat → String) : Guards (machine subject_alt_name rcgen ca)
    (fun _ event => ∀ id host, event = .arrive id host → hosts id = host) Acts
    (Keeps subject_alt_name rcgen ca) Rely
    (fun id => Returned subject_alt_name rcgen ca (hosts id)) where
  isRely := rely_isRely
  acted _ _ choice _ _ _ _ _ _ _ result := ⟨choice, result⟩
  looped _ _ _ _ _ _ again := by cases again
  arrived config id host program after permitted guarded accepted := by
    cases accepted
    refine ⟨guarded.shared, fun other _ => rely_isRely.refl other _, ?_⟩
    rw [permitted id host rfl]
    exact server_config_safe id host _

/-- What a call has returned in a run. -/
theorem returned_of_run {events : List (Event Nat Choice String)}
    {after : Config Act Answer Nat Minted Value}
    (ran : (machine subject_alt_name rcgen ca).run fresh events = some after) {id : Nat}
    {host : String}
    (arrived : .arrive id host ∈ events) {value : Value}
    (returned : after.tasks id = some (.finish value)) :
    Returned subject_alt_name rcgen ca host value after.shared := by
  obtain ⟨arrivals, isArrival⟩ := Machine.exists_arrivals ran
  let hosts := fun id => (arrivals id).getD ""
  have isHost : ∀ id host, .arrive id host ∈ events → hosts id = host :=
    fun id host member => congrArg (·.getD "") (isArrival id host member)
  have start : Guarded Acts (Keeps subject_alt_name rcgen ca) Rely
      (fun id => Returned subject_alt_name rcgen ca (hosts id)) fresh :=
    ⟨by rintro host config ⟨⟩, by rintro id program ⟨⟩⟩
  have reached : (machine subject_alt_name rcgen ca).Reaches
      (fun _ event => ∀ id host, event = .arrive id host → hosts id = host) fresh after := by
    refine .of_run (fun _ event member id host same => ?_) ran
    rw [same] at member
    exact isHost id host member
  rw [← isHost id host arrived]
  exact (start.reaches (guards hosts) reached).finished rely_isRely returned

/-- A host's configuration is never removed. -/
theorem exec_isSome (id : Nat) {action : Act} {choice : Choice} {before after : Minted}
    {answer : Answer action} (result : exec id action choice before = some (answer, after))
    {host : String} (there : (before.configs host).isSome = true) :
    (after.configs host).isSome = true := by
  cases action with
  | insert other config =>
    cases choice <;> cases result
    by_cases same : host = other
    · subst same
      simp only [Function.update_self, Option.isSome_some]
    · simp only [Function.update_of_ne same]
      exact there
  | _ => cases choice <;> cases result <;> exact there

/-- Where a host's configuration is kept, whoever looks for it finds one. -/
theorem found_of_run {start after : Config Act Answer Nat Minted Value} {host : String}
    (there : (start.shared.configs host).isSome = true) {events : List (Event Nat Choice String)}
    (ran : (machine subject_alt_name rcgen ca).run start events = some after) :
    ∀ entry ∈ (machine subject_alt_name rcgen ca).history start events,
      ∀ found : Option ServerConfig,
      entry.2 = ⟨.get host, found⟩ → found.isSome = true := by
  have begins : (start.shared.configs host).isSome = true ∧
      ∀ entry ∈ ([] : List (Nat × Done Act Answer)), ∀ found : Option ServerConfig,
        entry.2 = ⟨.get host, found⟩ → found.isSome = true :=
    ⟨there, fun entry none => absurd none List.not_mem_nil⟩
  have all := Machine.history_preserves ran (fun past minted =>
    (minted.configs host).isSome = true ∧ ∀ entry ∈ past, ∀ found : Option ServerConfig,
      entry.2 = ⟨.get host, found⟩ → found.isSome = true) ?_ ?_ begins
  · exact all.2
  · rintro past id action choice before answer shared ⟨there, kept⟩ result
    refine ⟨exec_isSome id result there, fun entry member found same => ?_⟩
    rcases List.mem_append.mp member with earlier | now
    · exact kept entry earlier found same
    · rw [List.mem_singleton.mp now] at same
      cases same
      cases choice <;> cases result
      exact there
  · rintro past id arrival before program shared kept ⟨⟩
    exact kept

/-- A call that finds a configuration returns it. -/
theorem takes_found {host : String} {path : List (Done Act Answer)} {program : Task}
    (takes : (server_config subject_alt_name rcgen ca host).Takes path program)
    (found : ∀ done ∈ path, ∀ answer : Option ServerConfig, done = ⟨.get host, answer⟩ →
      answer.isSome = true) :
    (path = [] ∧ program = server_config subject_alt_name rcgen ca host) ∨
      ∃ config, path = [⟨.get host, some config⟩] ∧ program = .finish (.ok config) := by
  obtain ⟨next, begins, returns⟩ : ∃ next : Option ServerConfig → Task,
      server_config subject_alt_name rcgen ca host = .perform (.get host) next ∧
        ∀ existing, next (some existing) = .finish (.ok existing) := ⟨_, rfl, fun _ => rfl⟩
  rw [begins] at takes ⊢
  cases takes with
  | here => exact Or.inl ⟨rfl, rfl⟩
  | @step _ _ answer rest _ later =>
    have there := found _ List.mem_cons_self answer rfl
    obtain ⟨existing, rfl⟩ := Option.isSome_iff_exists.mp there
    rw [returns] at later
    cases later
    exact Or.inr ⟨existing, rfl, rfl⟩

/-- In every order of the calls' actions, the configuration that a call has returned presents a
certificate for a server that the authority vouches for, no longer valid than platforms allow, and a
client takes the chain for this host and for no other, at the times from a day before a reading of
the clock to 300 days behind it, as far as the authority is valid itself. From then on a call for
the host has done nothing yet, or has found a configuration in the map and returned it. -/
theorem presents (subject_alt_name : String → Option SanType) {rcgen : Rcgen} {ca : Ca}
    {key : Option KeyPair} {signs : Bool} (made : generate rcgen key signs = .ok ca)
    {front : List (Event Nat Choice String)} {middle : Config Act Answer Nat Minted Value}
    (ran : (machine subject_alt_name rcgen ca).run fresh front = some middle) {id : Nat}
    {host : String} (arrived : .arrive id host ∈ front) {config : ServerConfig}
    (returned : middle.tasks id = some (.finish (.ok config))) :
    (∃ now ∈ middle.shared.readings,
      (∃ leaf, config.cert_chain = [leaf, ca.cert] ∧ leaf.key = config.key ∧
        Certifies ca.cert leaf ∧ Serves leaf) ∧ config.alpn_protocols = ["http/1.1"] ∧
      ∀ other time, Accepts subject_alt_name ca.cert other time config.cert_chain ↔
        subject_alt_name other = subject_alt_name host ∧
          (days 18262 ≤ time ∧ time ≤ days 23741) ∧
            now - days 1 ≤ time ∧ time ≤ now + days 300) ∧
    ∀ back after, (machine subject_alt_name rcgen ca).run middle back = some after →
      ∀ other, .arrive other host ∈ back →
        (pathOf other ((machine subject_alt_name rcgen ca).history middle back) = [] ∧
          after.tasks other = some (server_config subject_alt_name rcgen ca host)) ∨
        ∃ config, pathOf other ((machine subject_alt_name rcgen ca).history middle back) =
            [⟨.get host, some config⟩] ∧ after.tasks other = some (.finish (.ok config)) := by
  obtain ⟨⟨leaf_key, now, san, read, named, rfl⟩, there⟩ :=
    returned_of_run ran arrived returned config rfl
  constructor
  · refine ⟨now, read, ⟨_, rfl, rcgen.signed_by_key .., presented_certifies made ..,
      presented_serves ..⟩, rfl, fun other time => ?_⟩
    rw [presented_accepts made, named]
  intro back after goesOn other came
  have found := found_of_run there goesOn
  obtain ⟨program, came⟩ := Machine.came_of_mem goesOn (fun _ => rfl) came
  obtain ⟨_, _, _, ⟨⟩, takes⟩ := came.takes
  rw [came.task, Option.some_inj]
  exact (takes_found takes fun done member => found _ (mem_pathOf.mp member)).imp_right
    fun ⟨config, path, ends⟩ => ⟨config, path, congrArg some ends⟩

end Calls

/-- A host that is a name is read as one. -/
def named (host : String) : Option SanType := some (.DnsName host)

/-- Certificates numbered after their keys. -/
def numbering : Rcgen where
  self_signed params key := ⟨params, key, params.distinguished_name, key, key⟩
  signed_by params key issuer issuer_key :=
    ⟨params, key, issuer.params.distinguished_name, issuer_key, key⟩
  self_signed_params _ _ := rfl
  self_signed_key _ _ := rfl
  signed_by_params _ _ _ _ := rfl
  signed_by_key _ _ _ _ := rfl
  signed_by_issuer _ _ _ _ := rfl
  signed_by_signed_with _ _ _ _ := rfl

/-- Two connections to one host at once mint a configuration each. -/
def mintingFront : List (Event Nat Choice String) :=
  [.arrive 0 "static.crates.io", .arrive 1 "static.crates.io", .run 0 .done, .run 1 .done,
    .run 0 (.key 7), .run 1 (.key 8), .run 0 (.time (days 20000)), .run 1 (.time (days 20000)),
    .run 0 .done, .run 0 .done, .run 0 .done]

/-- The second replaces what the first has kept, and a third connection finds it. -/
def mintingBack : List (Event Nat Choice String) :=
  [.run 1 .done, .run 1 .done, .run 1 .done, .arrive 2 "static.crates.io", .run 2 .done]

theorem presents_minted : ∃ (ca : Ca) (middle after : Config Act Answer Nat Minted Value)
    (config found : ServerConfig), generate numbering (some 1) true = .ok ca ∧
      (machine named numbering ca).run fresh mintingFront = some middle ∧
      middle.tasks 0 = some (.finish (.ok config)) ∧
      (machine named numbering ca).run middle mintingBack = some after ∧
      Accepts named ca.cert "static.crates.io" (days 20300) config.cert_chain ∧
      after.tasks 2 = some (.finish (.ok found)) ∧
      pathOf 2 ((machine named numbering ca).history middle mintingBack) =
        [⟨.get "static.crates.io", some found⟩] := by
  have made : generate numbering (some 1) true = .ok _ := rfl
  have ran : (machine named numbering ⟨numbering.self_signed ca_params 1, 1⟩).run fresh
    mintingFront = some _ := rfl
  obtain ⟨⟨now, read, -, -, accepts⟩, looks⟩ := presents named made ran
    (show .arrive 0 "static.crates.io" ∈ mintingFront from List.mem_cons_self) rfl
  have same : now = days 20000 := by simpa [fresh] using read
  have lives : Accepts named _ "static.crates.io" (days 20300) _ := (accepts _ _).mpr (by
    rw [same]
    decide)
  rcases looks mintingBack _ rfl 2 (by simp [mintingBack]) with ⟨none, -⟩ | ⟨found, path, ends⟩
  · cases none
  · exact ⟨_, _, _, _, found, made, ran, rfl, rfl, lives, ends, path⟩

end Ca

end Cicache
