/-
This file settles what `start` tells the proxy it launches. `start` and `run` have the same
options; `start` writes down what it was given and passes it on to `run`, each value in a token
behind its option. A value that starts with a hyphen came in behind an equals sign, and in a token
of its own it is taken for an option: the proxy does not start.

`--no-github-env` is not passed on. Only `start` looks at it.
-/

import Cicache.Lib.CommandLine
import Cicache.Store

namespace Cicache

open Text CommandLine

/-! ### The code that is called -/

/-- What the program uses of the parser of its command line: whether a lone hyphen can be the
value of the option before it, the options that occur behind a subcommand, and the parsers of
values. `usize` has 64 bits. -/
structure Clap where
  lone_hyphen : Bool
  occurrences : Options → List String → Option (List Occurrence)
  u16 : String → Option UInt16
  u64 : String → Option UInt64
  usize : String → Option UInt64
  path : String → Option String

/-- What the program relies on of that parser. -/
structure Clap.Lawful (clap : Clap) : Prop where
  spoken : ∀ options occurrences, (∀ occurrence ∈ occurrences, occurrence.Listed options) →
    Spoken clap.lone_hyphen occurrences →
    clap.occurrences options (occurrences.flatMap Occurrence.tokens) = some occurrences
  unspoken : ∀ options occurrences, (∀ occurrence ∈ occurrences, occurrence.Listed options) →
    ¬ Spoken clap.lone_hyphen occurrences →
    clap.occurrences options (occurrences.flatMap Occurrence.tokens) = none
  u16 : ∀ number : UInt16, clap.u16 (Nat.repr number.toNat) = some number
  u64 : ∀ number : UInt64, clap.u64 (Nat.repr number.toNat) = some number
  usize : ∀ number : UInt64, clap.usize (Nat.repr number.toNat) = some number
  path : ∀ text, text ≠ "" → clap.path text = some text
  path_empty : clap.path "" = none

/-- The variables that count, where they are set. -/
structure Environment where
  CICACHE_STATE : Option String
  GITHUB_JOB : Option String
  RUNNER_OS : Option String
  RUNNER_ARCH : Option String

/-! ### The arguments -/

structure ProxyArgs where
  port : UInt16
  state_dir : Option String
  min_size : UInt64
  max_size : UInt64
  cache_all : Bool
  min_max_age : UInt64
  cache_authorized : Bool
  bypass : List String
  mitm_ports : List UInt16
  no_follow_redirects : Bool
  upload_concurrency : UInt64
  pack_threshold : UInt64
  pack_limit : UInt64
  scope : Option String
  key_prefix : String
  no_github_env : Bool
  deriving DecidableEq

namespace ProxyArgs

/-- The options of `start` and `run`. -/
def options : Options :=
  [("port", true), ("state-dir", true), ("min-size", true), ("max-size", true),
    ("cache-all", false), ("min-max-age", true), ("cache-authorized", false), ("bypass", true),
    ("mitm-ports", true), ("no-follow-redirects", false), ("upload-concurrency", true),
    ("pack-threshold", true), ("pack-limit", true), ("scope", true), ("key-prefix", true),
    ("no-github-env", false)]

section Parse

variable (clap : Clap) (env : Environment)

/-- The state directory is the option's, or the variable's. -/
def given_state_dir (given : List Occurrence) : Option (Option String) :=
  match values "state-dir" given, env.CICACHE_STATE with
  | [], some text => (clap.path text).map some
  | _, _ => optional clap.path "state-dir" given

/-- The arguments that options stand for. -/
def from_arg_matches (given : List Occurrence) : Option ProxyArgs := do
  let port ← setting clap.u16 0 "port" given
  let state_dir ← given_state_dir clap env given
  let min_size ← setting clap.u64 (32 * 1024) "min-size" given
  let max_size ← setting clap.u64 (512 * 1024 * 1024) "max-size" given
  let cache_all ← flag "cache-all" given
  let min_max_age ← setting clap.u64 3600 "min-max-age" given
  let cache_authorized ← flag "cache-authorized" given
  let bypass ← delimited some [] "bypass" given
  let mitm_ports ← delimited clap.u16 [443, 8443] "mitm-ports" given
  let no_follow_redirects ← flag "no-follow-redirects" given
  let upload_concurrency ← setting clap.usize 8 "upload-concurrency" given
  let pack_threshold ← setting clap.u64 (1024 * 1024) "pack-threshold" given
  let pack_limit ← setting clap.u64 (512 * 1024 * 1024) "pack-limit" given
  let scope ← optional some "scope" given
  let key_prefix ← setting some "cicache-v1" "key-prefix" given
  let no_github_env ← flag "no-github-env" given
  return ⟨port, state_dir, min_size, max_size, cache_all, min_max_age, cache_authorized, bypass,
    mitm_ports, no_follow_redirects, upload_concurrency, pack_threshold, pack_limit, scope,
    key_prefix, no_github_env⟩

/-- The arguments behind `start` or `run`, when the parser accepts them. -/
def parse (tokens : List String) : Option ProxyArgs :=
  (clap.occurrences options tokens).bind (from_arg_matches clap env)

end Parse

/-! ### Passing them on -/

variable (env : Environment) (args : ProxyArgs) (dir : String)

/-- The scope entries are filed under: whatever was asked for, or this job on this runner. -/
def resolved_scope : String :=
  args.scope.getD
    (env.GITHUB_JOB.getD "job" ++ "-" ++ env.RUNNER_OS.getD "os" ++ "-" ++
      env.RUNNER_ARCH.getD "arch")

/-- Rebuilds the flags for the background `run` invocation. -/
def to_run_args : List String :=
  ["--port", Nat.repr args.port.toNat,
    "--state-dir", dir,
    "--min-size", Nat.repr args.min_size.toNat,
    "--max-size", Nat.repr args.max_size.toNat,
    "--min-max-age", Nat.repr args.min_max_age.toNat,
    "--upload-concurrency", Nat.repr args.upload_concurrency.toNat,
    "--key-prefix", args.key_prefix,
    "--scope", args.resolved_scope env,
    "--pack-threshold", Nat.repr args.pack_threshold.toNat,
    "--pack-limit", Nat.repr args.pack_limit.toNat] ++
  (if args.cache_all then ["--cache-all"] else []) ++
  (if args.cache_authorized then ["--cache-authorized"] else []) ++
  (if args.no_follow_redirects then ["--no-follow-redirects"] else []) ++
  (if args.bypass ≠ [] then ["--bypass", join ',' args.bypass] else []) ++
  (if args.mitm_ports ≠ [] then
    ["--mitm-ports", join ',' (args.mitm_ports.map fun port => Nat.repr port.toNat)] else [])

/-- The options that `run` is always launched with. -/
def always : List Occurrence :=
  [⟨"port", some (Nat.repr args.port.toNat)⟩,
    ⟨"state-dir", some dir⟩,
    ⟨"min-size", some (Nat.repr args.min_size.toNat)⟩,
    ⟨"max-size", some (Nat.repr args.max_size.toNat)⟩,
    ⟨"min-max-age", some (Nat.repr args.min_max_age.toNat)⟩,
    ⟨"upload-concurrency", some (Nat.repr args.upload_concurrency.toNat)⟩,
    ⟨"key-prefix", some args.key_prefix⟩,
    ⟨"scope", some (args.resolved_scope env)⟩,
    ⟨"pack-threshold", some (Nat.repr args.pack_threshold.toNat)⟩,
    ⟨"pack-limit", some (Nat.repr args.pack_limit.toNat)⟩]

/-- The options that `run` is launched with. -/
def run_occurrences : List Occurrence :=
  args.always env dir ++
  (if args.cache_all then [⟨"cache-all", none⟩] else []) ++
  (if args.cache_authorized then [⟨"cache-authorized", none⟩] else []) ++
  (if args.no_follow_redirects then [⟨"no-follow-redirects", none⟩] else []) ++
  (if args.bypass ≠ [] then [⟨"bypass", some (join ',' args.bypass)⟩] else []) ++
  (if args.mitm_ports ≠ [] then
    [⟨"mitm-ports", some (join ',' (args.mitm_ports.map fun port => Nat.repr port.toNat))⟩] else [])

theorem flatMap_tokens_ite (condition : Prop) [Decidable condition] (occurrence : Occurrence) :
    (if condition then [occurrence] else []).flatMap Occurrence.tokens =
      if condition then occurrence.tokens else [] := by
  split
  · exact List.flatMap_singleton ..
  · rfl

theorem to_run_args_eq :
    args.to_run_args env dir = (args.run_occurrences env dir).flatMap Occurrence.tokens := by
  simp only [run_occurrences, List.flatMap_append, flatMap_tokens_ite]
  rfl

theorem forall_mem_ite {Element : Type} {condition : Prop} [Decidable condition]
    {element : Element} {kind : Element → Prop} :
    (∀ other ∈ if condition then [element] else [], kind other) ↔ (condition → kind element) := by
  split
  · rename_i holds
    rw [List.forall_mem_singleton, imp_iff_right holds]
  · rename_i fails
    exact iff_of_true (fun _ none => absurd none List.not_mem_nil) fun holds => absurd holds fails

/-- The options that `run` is launched with are options of its own. -/
theorem run_occurrences_listed :
    ∀ occurrence ∈ args.run_occurrences env dir, occurrence.Listed options := by
  simp only [run_occurrences, always, List.forall_mem_append, List.forall_mem_cons, forall_mem_ite]
  refine ⟨⟨⟨⟨⟨⟨?_, ?_, ?_, ?_, ?_, ?_, ?_, ?_, ?_, ?_, nofun⟩, fun _ => ?_⟩, fun _ => ?_⟩,
    fun _ => ?_⟩, fun _ => ?_⟩, fun _ => ?_⟩
  all_goals
    refine ⟨rfl, ?_⟩
    dsimp only
    decide

/-- The texts that are passed on can stand in tokens of their own. -/
structure Tellable (lone : Bool) : Prop where
  dir : isValue lone dir = true
  key_prefix : isValue lone args.key_prefix = true
  scope : isValue lone (args.resolved_scope env) = true
  bypass : args.bypass ≠ [] → isValue lone (join ',' args.bypass) = true

theorem isValue_repr (lone : Bool) (number : Nat) : isValue lone (Nat.repr number) = true :=
  isValue_of_not_mem (hyphen_not_mem_repr number)

theorem isValue_ports (lone : Bool) (ports : List UInt16) :
    isValue lone (join ',' (ports.map fun port => Nat.repr port.toNat)) = true := by
  refine isValue_of_not_mem (not_mem_join (by decide) fun part member => ?_)
  obtain ⟨port, -, rfl⟩ := List.mem_map.mp member
  exact hyphen_not_mem_repr port.toNat

/-- Every token that has to be a value can be one when the texts can; numbers always can. -/
theorem spoken_iff (lone : Bool) :
    Spoken lone (args.run_occurrences env dir) ↔ args.Tellable env dir lone := by
  simp only [Spoken, run_occurrences, always, List.forall_mem_append, List.forall_mem_cons,
    forall_mem_ite,
    Option.some.injEq, forall_eq', isValue_repr, isValue_ports, reduceCtorEq, false_implies,
    implies_true, and_true, true_and, List.not_mem_nil]
  constructor
  · rintro ⟨⟨dir, key_prefix, scope⟩, bypass⟩
    exact ⟨dir, key_prefix, scope, bypass⟩
  · rintro ⟨dir, key_prefix, scope, bypass⟩
    exact ⟨⟨dir, key_prefix, scope⟩, bypass⟩

/-! ### Reading them again -/

section Parse

variable {clap : Clap} {env args dir} {given : List Occurrence}

/-- The options stand for the arguments, one by one. -/
structure Stands (clap : Clap) (env : Environment) (given : List Occurrence) (args : ProxyArgs) :
    Prop where
  port : setting clap.u16 0 "port" given = some args.port
  state_dir : given_state_dir clap env given = some args.state_dir
  min_size : setting clap.u64 (32 * 1024) "min-size" given = some args.min_size
  max_size : setting clap.u64 (512 * 1024 * 1024) "max-size" given = some args.max_size
  cache_all : flag "cache-all" given = some args.cache_all
  min_max_age : setting clap.u64 3600 "min-max-age" given = some args.min_max_age
  cache_authorized : flag "cache-authorized" given = some args.cache_authorized
  bypass : delimited some [] "bypass" given = some args.bypass
  mitm_ports : delimited clap.u16 [443, 8443] "mitm-ports" given = some args.mitm_ports
  no_follow_redirects : flag "no-follow-redirects" given = some args.no_follow_redirects
  upload_concurrency : setting clap.usize 8 "upload-concurrency" given =
    some args.upload_concurrency
  pack_threshold : setting clap.u64 (1024 * 1024) "pack-threshold" given =
    some args.pack_threshold
  pack_limit : setting clap.u64 (512 * 1024 * 1024) "pack-limit" given = some args.pack_limit
  scope : optional some "scope" given = some args.scope
  key_prefix : setting some "cicache-v1" "key-prefix" given = some args.key_prefix
  no_github_env : flag "no-github-env" given = some args.no_github_env

theorem from_arg_matches_iff : from_arg_matches clap env given = some args ↔
    Stands clap env given args := by
  constructor
  · intro read
    obtain ⟨_, port, read⟩ := Option.bind_eq_some_iff.mp read
    obtain ⟨_, state_dir, read⟩ := Option.bind_eq_some_iff.mp read
    obtain ⟨_, min_size, read⟩ := Option.bind_eq_some_iff.mp read
    obtain ⟨_, max_size, read⟩ := Option.bind_eq_some_iff.mp read
    obtain ⟨_, cache_all, read⟩ := Option.bind_eq_some_iff.mp read
    obtain ⟨_, min_max_age, read⟩ := Option.bind_eq_some_iff.mp read
    obtain ⟨_, cache_authorized, read⟩ := Option.bind_eq_some_iff.mp read
    obtain ⟨_, bypass, read⟩ := Option.bind_eq_some_iff.mp read
    obtain ⟨_, mitm_ports, read⟩ := Option.bind_eq_some_iff.mp read
    obtain ⟨_, no_follow_redirects, read⟩ := Option.bind_eq_some_iff.mp read
    obtain ⟨_, upload_concurrency, read⟩ := Option.bind_eq_some_iff.mp read
    obtain ⟨_, pack_threshold, read⟩ := Option.bind_eq_some_iff.mp read
    obtain ⟨_, pack_limit, read⟩ := Option.bind_eq_some_iff.mp read
    obtain ⟨_, scope, read⟩ := Option.bind_eq_some_iff.mp read
    obtain ⟨_, key_prefix, read⟩ := Option.bind_eq_some_iff.mp read
    obtain ⟨_, no_github_env, read⟩ := Option.bind_eq_some_iff.mp read
    cases Option.some_inj.mp read
    exact ⟨port, state_dir, min_size, max_size, cache_all, min_max_age, cache_authorized, bypass,
      mitm_ports, no_follow_redirects, upload_concurrency, pack_threshold, pack_limit, scope,
      key_prefix, no_github_env⟩
  · intro stands
    simp only [from_arg_matches, stands.port, stands.state_dir, stands.min_size, stands.max_size,
      stands.cache_all, stands.min_max_age, stands.cache_authorized, stands.bypass,
      stands.mitm_ports, stands.no_follow_redirects, stands.upload_concurrency,
      stands.pack_threshold, stands.pack_limit, stands.scope, stands.key_prefix,
      stands.no_github_env, Option.bind_eq_bind, Option.bind_some, Option.pure_def]

/-- What a list of hosts or ports that came off a command line is like. -/
theorem parse_bypass {tokens : List String} (parsed : parse clap env tokens = some args) :
    (∀ host ∈ args.bypass, ',' ∉ host.toList) ∧ args.mitm_ports ≠ [] := by
  obtain ⟨given, -, read⟩ := Option.bind_eq_some_iff.mp parsed
  have stands := from_arg_matches_iff.mp read
  exact ⟨delimited_free (fun _ none => absurd none List.not_mem_nil) stands.bypass,
    delimited_ne_nil (List.cons_ne_nil _ _) stands.mitm_ports⟩

theorem values_ite (name : String) (condition : Prop) [Decidable condition]
    (occurrence : Occurrence) : values name (if condition then [occurrence] else []) =
      if condition then values name [occurrence] else [] := apply_ite (values name) _ _ _

theorem times_ite (name : String) (condition : Prop) [Decidable condition]
    (occurrence : Occurrence) : times name (if condition then [occurrence] else []) =
      if condition then times name [occurrence] else 0 := apply_ite (times name) _ _ _

/-- An option that is always passed on has its one value. -/
theorem values_always {name text : String} (among : values name (args.always env dir) = [text])
    (other : name ≠ "bypass" ∧ name ≠ "mitm-ports") :
    values name (args.run_occurrences env dir) = [text] := by
  simp only [run_occurrences, values_append, values_ite, among]
  simp [values, Ne.symm other.1, Ne.symm other.2]

theorem values_bypass : values "bypass" (args.run_occurrences env dir) =
    if args.bypass ≠ [] then [join ',' args.bypass] else [] := by
  simp only [run_occurrences, values_append, values_ite]
  simp [values, always]

theorem values_mitm_ports : values "mitm-ports" (args.run_occurrences env dir) =
    if args.mitm_ports ≠ [] then
      [join ',' (args.mitm_ports.map fun port => Nat.repr port.toNat)] else [] := by
  simp only [run_occurrences, values_append, values_ite]
  simp [values, always]

theorem times_run (name : String) : times name (args.run_occurrences env dir) =
    times name (args.always env dir) +
      (if args.cache_all then times name [⟨"cache-all", none⟩] else 0) +
      (if args.cache_authorized then times name [⟨"cache-authorized", none⟩] else 0) +
      (if args.no_follow_redirects then times name [⟨"no-follow-redirects", none⟩] else 0) +
      (if args.bypass ≠ [] then times name [⟨"bypass", some (join ',' args.bypass)⟩] else 0) +
      if args.mitm_ports ≠ [] then times name [⟨"mitm-ports",
        some (join ',' (args.mitm_ports.map fun port => Nat.repr port.toNat))⟩] else 0 := by
  simp only [run_occurrences, times_append, times_ite]

/-- What `run` reads off the options it is launched with. -/
theorem stands_run (lawful : clap.Lawful) (named : dir ≠ "")
    (plain : ∀ host ∈ args.bypass, ',' ∉ host.toList) (ports : args.mitm_ports ≠ []) :
    Stands clap env (args.run_occurrences env dir)
      { args with
        state_dir := some dir
        scope := some (args.resolved_scope env)
        no_github_env := false } where
  port := (setting_of_values (values_always rfl (by decide))).trans (lawful.u16 _)
  state_dir := by
    have told : values "state-dir" (args.run_occurrences env dir) = [dir] :=
      values_always rfl (by decide)
    rw [given_state_dir, told]
    show optional clap.path "state-dir" (args.run_occurrences env dir) = some (some dir)
    rw [CommandLine.optional, setting_of_values told, lawful.path dir named]
    rfl
  min_size := (setting_of_values (values_always rfl (by decide))).trans (lawful.u64 _)
  max_size := (setting_of_values (values_always rfl (by decide))).trans (lawful.u64 _)
  cache_all := flag_of_times (by rw [times_run]; simp [times, always])
  min_max_age := (setting_of_values (values_always rfl (by decide))).trans (lawful.u64 _)
  cache_authorized := flag_of_times (by rw [times_run]; simp [times, always])
  bypass := by
    by_cases empty : args.bypass = []
    · rw [delimited, values_bypass, empty]
      rfl
    · have told := @values_bypass env args dir
      rw [if_pos empty] at told
      rw [delimited_join told empty plain, mapM_some]
  mitm_ports := by
    have told := @values_mitm_ports env args dir
    rw [if_pos ports] at told
    rw [delimited_join told (by simpa using ports), mapM_parse lawful.u16]
    intro part member
    obtain ⟨port, -, rfl⟩ := List.mem_map.mp member
    exact comma_not_mem_repr port.toNat
  no_follow_redirects := flag_of_times (by rw [times_run]; simp [times, always])
  upload_concurrency := (setting_of_values (values_always rfl (by decide))).trans (lawful.usize _)
  pack_threshold := (setting_of_values (values_always rfl (by decide))).trans (lawful.u64 _)
  pack_limit := (setting_of_values (values_always rfl (by decide))).trans (lawful.u64 _)
  scope := setting_of_values (values_always rfl (by decide))
  key_prefix := setting_of_values (values_always rfl (by decide))
  no_github_env := flag_of_times (by rw [times_run]; simp [times, always])

/-- `run` reads what it is launched with when the texts can stand in tokens of their own. -/
theorem parse_run (lawful : clap.Lawful) {tokens : List String}
    (parsed : parse clap env tokens = some args) (named : dir ≠ "")
    (told : args.Tellable env dir clap.lone_hyphen) :
    parse clap env (args.to_run_args env dir) = some { args with
      state_dir := some dir
      scope := some (args.resolved_scope env)
      no_github_env := false } := by
  obtain ⟨plain, ports⟩ := parse_bypass parsed
  rw [parse, to_run_args_eq, lawful.spoken _ _ (run_occurrences_listed env args dir)
    ((spoken_iff env args dir _).mpr told)]
  exact from_arg_matches_iff.mpr (stands_run lawful named plain ports)

/-- Otherwise it reads nothing. -/
theorem tellable_of_parse_run (lawful : clap.Lawful) {daemon : ProxyArgs}
    (parsed : parse clap env (args.to_run_args env dir) = some daemon) :
    dir ≠ "" ∧ args.Tellable env dir clap.lone_hyphen := by
  rw [parse, to_run_args_eq] at parsed
  have listed := run_occurrences_listed env args dir
  by_cases spoken : Spoken clap.lone_hyphen (args.run_occurrences env dir)
  · refine ⟨?_, (spoken_iff env args dir _).mp spoken⟩
    rintro rfl
    rw [lawful.spoken _ _ listed spoken] at parsed
    have state_dir := (from_arg_matches_iff.mp parsed).state_dir
    have told : values "state-dir" (args.run_occurrences env "") = [""] :=
      values_always rfl (by decide)
    rw [given_state_dir, told] at state_dir
    replace state_dir : CommandLine.optional clap.path "state-dir" (args.run_occurrences env "") =
      some daemon.state_dir := state_dir
    rw [CommandLine.optional, setting_of_values told, lawful.path_empty] at state_dir
    cases state_dir
  · rw [lawful.unspoken _ _ listed spoken] at parsed
    cases parsed

/-- `run` accepts what `start` passes on and reads what `start` was given, with the state directory
and the scope filled in, exactly when the texts that are passed on can stand in tokens of their
own. The flag that only `start` looks at is read as it was given when it was not set. -/
theorem run_args_parsed_iff (lawful : clap.Lawful) {tokens : List String}
    (parsed : parse clap env tokens = some args) (dir : String) :
    ((∃ no_github_env, parse clap env (args.to_run_args env dir) = some { args with
        state_dir := some dir
        scope := some (args.resolved_scope env)
        no_github_env := no_github_env }) ↔
      dir ≠ "" ∧ args.Tellable env dir clap.lone_hyphen) ∧
    (parse clap env (args.to_run_args env dir) = some { args with
        state_dir := some dir
        scope := some (args.resolved_scope env) } ↔
      (dir ≠ "" ∧ args.Tellable env dir clap.lone_hyphen) ∧ args.no_github_env = false) := by
  constructor
  · constructor
    · rintro ⟨_, accepted⟩
      exact tellable_of_parse_run lawful accepted
    · rintro ⟨named, told⟩
      exact ⟨false, parse_run lawful parsed named told⟩
  · constructor
    · intro accepted
      obtain ⟨named, told⟩ := tellable_of_parse_run lawful accepted
      refine ⟨⟨named, told⟩, ?_⟩
      rw [parse_run lawful parsed named told, Option.some_inj] at accepted
      exact (congrArg no_github_env accepted).symm
    · rintro ⟨⟨named, told⟩, unset⟩
      rw [parse_run lawful parsed named told, ← unset]

end Parse

/-! ### What the proxy works with -/

/-- The policy that `run` sets up. -/
def policy (args : ProxyArgs) : Policy where
  min_size := args.min_size.toNat
  max_size := args.max_size.toNat
  min_max_age := args.min_max_age.toNat
  cache_all := args.cache_all
  cache_authorized := args.cache_authorized
  extra_bypass := args.bypass
  key_prefix := args.key_prefix

/-- The configuration of the store that `run` opens. -/
def store_config (env : Environment) (args : ProxyArgs) : StoreConfig where
  key_prefix := args.key_prefix
  scope := args.resolved_scope env
  pack_threshold := args.pack_threshold.toNat
  pack_limit := args.pack_limit.toNat
  concurrency := args.upload_concurrency.toNat

/-- A proxy that comes up works with the policy and the store that `start` was asked for. -/
theorem daemon_settings {clap : Clap} {env : Environment} {args daemon : ProxyArgs} {dir : String}
    (lawful : clap.Lawful) {tokens : List String} (parsed : parse clap env tokens = some args)
    (launched : parse clap env (args.to_run_args env dir) = some daemon) :
    daemon.policy = args.policy ∧ daemon.store_config env = args.store_config env ∧
      daemon.mitm_ports = args.mitm_ports ∧ daemon.port = args.port := by
  obtain ⟨named, told⟩ := tellable_of_parse_run lawful launched
  rw [parse_run lawful parsed named told, Option.some_inj] at launched
  subst launched
  exact ⟨rfl, rfl, rfl, rfl⟩

end ProxyArgs

/-! ### A value that starts with a hyphen -/

/-- A parser that takes a lone hyphen for a value. -/
def exampleClap : Clap where
  lone_hyphen := true
  occurrences options tokens := read options true none tokens
  u16 text := (parseU64 text).bind fun number =>
    if number < 2 ^ 16 then some (UInt16.ofNat number) else none
  u64 text := (parseU64 text).map UInt64.ofNat
  usize text := (parseU64 text).map UInt64.ofNat
  path text := if text = "" then none else some text

theorem exampleClap_lawful : exampleClap.Lawful := by
  have u64 : ∀ number : UInt64, (parseU64 (Nat.repr number.toNat)).map UInt64.ofNat =
      some number := by
    intro number
    rw [parseU64_repr number.toNat_lt, Option.map_some, UInt64.ofNat_toNat]
  refine ⟨?_, ?_, ?_, u64, u64, fun text named => if_neg named, rfl⟩
  · exact fun options occurrences listed spoken => read_tokens listed spoken
  · exact fun options occurrences listed unspoken => read_unspoken listed unspoken
  · intro number
    show (parseU64 (Nat.repr number.toNat)).bind _ = some number
    have small : number.toNat < 2 ^ 16 := number.toNat_lt
    rw [parseU64_repr (by omega), Option.bind_some, if_pos small, UInt16.ofNat_toNat]

/-- An environment in which no variable is set. -/
def bareEnvironment : Environment := ⟨none, none, none, none⟩

namespace ProxyArgs

/-- A key prefix that starts with a hyphen comes in behind an equals sign, and goes on without. -/
theorem hyphen_refused :
    ¬ ∀ (clap : Clap) (env : Environment) (tokens : List String) (args : ProxyArgs) (dir : String),
      clap.Lawful → parse clap env tokens = some args → dir ≠ "" →
      ∃ no_github_env, parse clap env (args.to_run_args env dir) = some { args with
        state_dir := some dir
        scope := some (args.resolved_scope env)
        no_github_env := no_github_env } := by
  intro always
  obtain ⟨_, accepted⟩ := always exampleClap bareEnvironment ["--key-prefix=-x"] _ "/tmp/cicache"
    exampleClap_lawful rfl (by decide)
  obtain ⟨-, told⟩ := tellable_of_parse_run exampleClap_lawful accepted
  exact absurd told.key_prefix (by decide)

/-- Two hosts that are passed through, and everything is stored. -/
def exampleArgs : ProxyArgs where
  port := 0
  state_dir := none
  min_size := 32768
  max_size := 536870912
  cache_all := true
  min_max_age := 3600
  cache_authorized := false
  bypass := ["a.example", "b.example"]
  mitm_ports := [443, 8443]
  no_follow_redirects := false
  upload_concurrency := 8
  pack_threshold := 1048576
  pack_limit := 536870912
  scope := none
  key_prefix := "cicache-v1"
  no_github_env := false

/-- They are read off a command line and passed on. -/
theorem exampleArgs_passed :
    parse exampleClap bareEnvironment ["--bypass=a.example,b.example", "--cache-all"] =
      some exampleArgs ∧
    parse exampleClap bareEnvironment (exampleArgs.to_run_args bareEnvironment "/tmp/cicache") =
      some { exampleArgs with
        state_dir := some "/tmp/cicache"
        scope := some "job-os-arch" } := by
  have parsed : parse exampleClap bareEnvironment
      ["--bypass=a.example,b.example", "--cache-all"] = some exampleArgs := by decide +kernel
  have scope : exampleArgs.resolved_scope bareEnvironment = "job-os-arch" := by decide
  refine ⟨parsed, ?_⟩
  rw [← scope]
  refine (run_args_parsed_iff exampleClap_lawful parsed "/tmp/cicache").2.mpr
    ⟨⟨by decide, ?_, ?_, ?_, fun _ => ?_⟩, rfl⟩
  all_goals decide

end ProxyArgs

end Cicache
