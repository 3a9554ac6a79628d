/-
This file settles which documents of the known registries are kept out of the cache. A registry
serves artifacts, which carry a version in their path and never change, beside metadata, which
changes under a fixed path. The table of known artifacts tells them apart by a piece of the path;
a row without such a piece takes everything its host serves for an artifact, and two of the pieces
stand in the paths of metadata as well.
-/

import Cicache.CacheControl

namespace Cicache

open Text

/-! ### The documents of a registry -/

/-- The two hosts Maven Central is served from. -/
inductive MavenCentral where
  | repo1
  | apache
  deriving DecidableEq

def MavenCentral.host : MavenCentral → String
  | .repo1 => "repo1.maven.org"
  | .apache => "repo.maven.apache.org"

/-- A document of a registry in the table: first the metadata, then the artifacts. -/
inductive Document where
  | packument (name : String)
  | search
  | sparseIndex (directory name : String)
  | versionList (module : String)
  | mavenMetadata (central : MavenCentral) (directory : String)
  | channelManifest (channel : String)
  | infoRefs (repository : String)
  | npmTarball (name file : String)
  | goModule (module file : String)
  | mavenArtifact (central : MavenCentral) (directory version file : String)
  | toolchain (date file : String)
  | releaseAsset (repository tag file : String)
  deriving DecidableEq

namespace Document

/-- The host a document is served from. -/
def host : Document → String
  | .packument _ | .search | .npmTarball _ _ => "registry.npmjs.org"
  | .sparseIndex _ _ => "index.crates.io"
  | .versionList _ | .goModule _ _ => "proxy.golang.org"
  | .mavenMetadata central _ | .mavenArtifact central _ _ _ => central.host
  | .channelManifest _ | .toolchain _ _ => "static.rust-lang.org"
  | .infoRefs _ | .releaseAsset _ _ _ => "github.com"

/-- The path a document is served under. -/
def path : Document → String
  | .packument name => "/" ++ name
  | .search => "/-/v1/search"
  | .sparseIndex directory name => "/" ++ directory ++ "/" ++ name
  | .versionList module => "/" ++ module ++ "/@v/list"
  | .mavenMetadata _ directory => "/maven2/" ++ directory ++ "/maven-metadata.xml"
  | .channelManifest channel => "/dist/channel-" ++ channel ++ ".toml"
  | .infoRefs repository => "/" ++ repository ++ "/info/refs"
  | .npmTarball name file => "/" ++ name ++ "/-/" ++ file
  | .goModule module file => "/" ++ module ++ "/@v/" ++ file
  | .mavenArtifact _ directory version file =>
      "/maven2/" ++ directory ++ "/" ++ version ++ "/" ++ file
  | .toolchain date file => "/dist/" ++ date ++ "/" ++ file
  | .releaseAsset repository tag file =>
      "/" ++ repository ++ "/releases/download/" ++ tag ++ "/" ++ file

/-- Whether a document changes under its path. -/
def isMetadata : Document → Bool
  | .packument _ | .search | .sparseIndex _ _ | .versionList _ | .mavenMetadata _ _
  | .channelManifest _ | .infoRefs _ => true
  | .npmTarball _ _ | .goModule _ _ | .mavenArtifact _ _ _ _ | .toolchain _ _
  | .releaseAsset _ _ _ => false

/-- A URL of the document: any scheme, port, query and so on. -/
def At (document : Document) (url : Url) : Prop :=
  url.host_str = document.host ∧ url.path = document.path

/-- What the cache is to do with a document that says nothing about itself. -/
def verdict (document : Document) : Except Reject Unit :=
  if document.isMetadata then .error .NotImmutable else .ok ()

/-- The table tells the document for what it is: all artifacts, and of the metadata the packuments
and the references whose path does not hold the piece that marks an artifact. -/
def Told : Document → Prop
  | .packument name => contains (path (.packument name)) "/-/" = false
  | .infoRefs repository => contains (path (.infoRefs repository)) "/releases/download/" = false
  | .search | .sparseIndex _ _ | .versionList _ | .mavenMetadata _ _ | .channelManifest _ => False
  | .npmTarball _ _ | .goModule _ _ | .mavenArtifact _ _ _ _ | .toolchain _ _
  | .releaseAsset _ _ _ => True

end Document

/-! ### The rows of one host -/

/-- The pieces of a path that mark an artifact of a host. -/
def markers (host : String) : List String :=
  (IMMUTABLE.filter fun row => host_matches host row.1).map Prod.snd

/-- A host whose rows have a piece of the path each: one of the pieces has to be there. -/
theorem is_immutable_artifact_of_marked {url : Url} {host marker : String}
    (named : url.host_str = host) (rows : markers host = [marker])
    (nonempty : marker.isEmpty = false) :
    is_immutable_artifact url = contains url.path marker := by
  have table : is_immutable_artifact url =
      (markers url.host_str).any fun marker => marker.isEmpty || contains url.path marker := by
    unfold is_immutable_artifact markers
    rw [List.any_map, List.any_filter]
    rfl
  rw [table, named, rows, List.any_cons, List.any_nil, nonempty, Bool.false_or, Bool.or_false]

/-- A host with a row that has no such piece: everything it serves is taken for an artifact. -/
theorem is_immutable_artifact_of_bare {url : Url} {host : String} (named : url.host_str = host)
    (bare : "" ∈ markers host) : is_immutable_artifact url = true := by
  obtain ⟨row, kept, second⟩ := List.mem_map.mp bare
  obtain ⟨inTable, hosts⟩ := List.mem_filter.mp kept
  refine List.any_eq_true.mpr ⟨row, inTable, ?_⟩
  show (host_matches url.host_str row.1 && (row.2.isEmpty || contains url.path row.2)) = true
  rw [named, hosts, second]
  rfl

theorem markers_npm : markers "registry.npmjs.org" = ["/-/"] := rfl

theorem markers_go : markers "proxy.golang.org" = ["/@v/"] := rfl

theorem markers_github : markers "github.com" = ["/releases/download/"] := rfl

theorem bare_index : "" ∈ markers "index.crates.io" := by decide

theorem bare_maven (central : MavenCentral) : "" ∈ markers central.host := by
  cases central <;> decide

theorem bare_rust : "" ∈ markers "static.rust-lang.org" := by decide

/-! ### What the table makes of each document -/

/-- The table takes exactly the artifacts for artifacts when it tells the document. -/
theorem Document.artifact_iff {document : Document} {url : Url} (served : document.At url) :
    is_immutable_artifact url = !document.isMetadata ↔ document.Told := by
  obtain ⟨host, path⟩ := served
  cases document with
  | packument name =>
    rw [is_immutable_artifact_of_marked host markers_npm rfl, path]
    exact Iff.rfl
  | search =>
    rw [is_immutable_artifact_of_marked host markers_npm rfl, path]
    exact iff_of_false (by decide) id
  | sparseIndex directory name =>
    rw [is_immutable_artifact_of_bare host bare_index]
    exact iff_of_false nofun id
  | versionList module =>
    rw [is_immutable_artifact_of_marked host markers_go rfl, path]
    have found : contains (Document.path (.versionList module)) "/@v/" = true := by
      have ending : Document.path (.versionList module) = "/" ++ module ++ "/@v/" ++ "list" := by
        rw [String.append_assoc]
        rfl
      rw [ending]
      exact contains_between _ _ _
    rw [found]
    exact iff_of_false nofun id
  | mavenMetadata central directory =>
    rw [is_immutable_artifact_of_bare host (bare_maven central)]
    exact iff_of_false nofun id
  | channelManifest channel =>
    rw [is_immutable_artifact_of_bare host bare_rust]
    exact iff_of_false nofun id
  | infoRefs repository =>
    rw [is_immutable_artifact_of_marked host markers_github rfl, path]
    exact Iff.rfl
  | npmTarball name file =>
    rw [is_immutable_artifact_of_marked host markers_npm rfl, path]
    exact iff_of_true (contains_between _ _ _) trivial
  | goModule module file =>
    rw [is_immutable_artifact_of_marked host markers_go rfl, path]
    exact iff_of_true (contains_between _ _ _) trivial
  | mavenArtifact central directory version file =>
    rw [is_immutable_artifact_of_bare host (bare_maven central)]
    exact iff_of_true rfl trivial
  | toolchain date file =>
    rw [is_immutable_artifact_of_bare host bare_rust]
    exact iff_of_true rfl trivial
  | releaseAsset repository tag file =>
    rw [is_immutable_artifact_of_marked host markers_github rfl, path]
    refine iff_of_true ?_ trivial
    show contains ("/" ++ repository ++ "/releases/download/" ++ tag ++ "/" ++ file) _ = true
    rw [String.append_assoc, String.append_assoc]
    exact contains_between _ _ _

/-- The packument of a package, scoped or not, is told for what it is: the name of a package holds
at most one slash, and no scope is a bare hyphen. -/
theorem told_packument {name : String} (oneSlash : name.toList.count '/' ≤ 1)
    (scope : ¬ ['-', '/'] <+: name.toList) : (Document.packument name).Told := by
  refine decide_eq_false ?_
  rintro ⟨front, back, shape⟩
  show False
  have shape : front ++ ['/', '-', '/'] ++ back = '/' :: name.toList := by
    rw [Document.path, String.toList_append] at shape
    exact shape
  cases front with
  | nil => exact scope ⟨back, (List.cons.inj shape).2⟩
  | cons char front =>
    have rest : front ++ ['/', '-', '/'] ++ back = name.toList := (List.cons.inj shape).2
    rw [← rest, List.count_append, List.count_append] at oneSlash
    have two : List.count '/' ['/', '-', '/'] = 2 := rfl
    omega

/-! ### Responses that say nothing about themselves -/

/-- The headers neither forbid storing nor say how long the response stays fresh. -/
structure Unmarked (headers : HeaderMap) : Prop where
  allowed : ¬ SaysForbidden headers
  mutable : contains (cacheControl headers) "immutable" = false
  ageless : max_age (cacheControl headers) = none

/-- Headers without `Cache-Control` are of this kind, whatever else they hold. -/
theorem unmarked_of_silent {headers : HeaderMap} (silent : headers.get .CACHE_CONTROL = none) :
    Unmarked headers := by
  have nothing : cacheControl headers = "" := by
    rw [cacheControl, silent]
    rfl
  refine ⟨?_, ?_, ?_⟩
  · rintro ⟨word, forbidding, found⟩
    rw [nothing] at found
    revert word
    decide
  · rw [nothing]
    decide
  · rw [nothing]
    decide

/-- Such a response is stored exactly when its URL is in the table. -/
theorem response_storable_of_unmarked {policy : Policy} (off : policy.cache_all = false)
    {headers : HeaderMap} (unmarked : Unmarked headers) {len : Nat}
    (fits : policy.min_size ≤ len ∧ len ≤ policy.max_size) (url : Url) :
    policy.response_storable url 200 headers len =
      if is_immutable_artifact url then .ok () else .error .NotImmutable := by
  have word : ∀ word ∈ FORBIDDING, contains (cacheControl headers) word = false := by
    intro word forbidding
    rw [← Bool.not_eq_true]
    exact fun found => unmarked.allowed ⟨word, forbidding, found⟩
  have forbids : (contains (cacheControl headers) "no-store" ||
      contains (cacheControl headers) "no-cache" ||
      contains (cacheControl headers) "private") = false := by
    rw [word "no-store" (by decide), word "no-cache" (by decide), word "private" (by decide)]
    rfl
  unfold Policy.response_storable
  show (if (200 : UInt16) ≠ 200 then _ else if (contains (cacheControl headers) "no-store" ||
      contains (cacheControl headers) "no-cache" ||
      contains (cacheControl headers) "private") = true then _ else _) = _
  rw [if_neg (not_not.mpr rfl), forbids, if_neg Bool.false_ne_true, if_neg (Nat.not_lt.mpr fits.1),
    if_neg (Nat.not_lt.mpr fits.2)]
  show (if (policy.cache_all || contains (cacheControl headers) "immutable" ||
      (max_age (cacheControl headers)).any _ || is_immutable_artifact url) = true then _ else _) = _
  rw [off, unmarked.mutable, unmarked.ageless]
  rfl

/-- With the check on, an admissible response that says nothing about itself is treated as what it
is, metadata rejected and artifacts stored, exactly when the table tells its document. -/
theorem response_storable_verdict_iff {policy : Policy} (off : policy.cache_all = false)
    {headers : HeaderMap} (unmarked : Unmarked headers) {len : Nat}
    (fits : policy.min_size ≤ len ∧ len ≤ policy.max_size) {document : Document} {url : Url}
    (served : document.At url) :
    policy.response_storable url 200 headers len = document.verdict ↔ document.Told := by
  rw [response_storable_of_unmarked off unmarked fits, ← Document.artifact_iff served,
    Document.verdict]
  cases is_immutable_artifact url with
  | true => cases document.isMetadata with
    | true => exact iff_of_false nofun nofun
    | false => exact iff_of_true rfl rfl
  | false => cases document.isMetadata with
    | true => exact iff_of_true rfl rfl
    | false => exact iff_of_false nofun nofun

/-- A document's URL over HTTPS. -/
def exampleAt (host path : String) (isHost : isHost host = true)
    (rooted : path.toList.head? = some '/') (isPath : '?' ∉ path.toList ∧ '#' ∉ path.toList) :
    Url where
  scheme := "https"
  userinfo := none
  host := some host
  port := none
  path := path
  query := none
  fragment := none
  isScheme := exampleUrl.isScheme
  isUserinfo := exampleUrl.isUserinfo
  isHost := fun _ named => Option.some_inj.mp named ▸ ⟨isHost, Or.inr rooted⟩
  noHost := fun bare => nomatch bare
  isPath := isPath
  isQuery := exampleUrl.isQuery

/-- A package's document on npm is not stored. -/
theorem lodash_rejected :
    exampleProxy.policy.response_storable
        (exampleAt "registry.npmjs.org" "/lodash" (by decide) (by decide) (by decide)) 200 [] 4096 =
      (Document.packument "lodash").verdict :=
  (response_storable_verdict_iff rfl (unmarked_of_silent rfl) ⟨by decide, by decide⟩
    ⟨rfl, rfl⟩).mpr rfl

/-- A crate's file in the sparse index is stored, though it changes with every release. -/
theorem serde_stored :
    ¬ ∀ (policy : Policy) (headers : HeaderMap) (len : Nat) (document : Document) (url : Url),
      policy.cache_all = false → Unmarked headers →
      policy.min_size ≤ len ∧ len ≤ policy.max_size → document.At url →
      policy.response_storable url 200 headers len = document.verdict := by
  intro always
  have rejected := always exampleProxy.policy [] 4096 (.sparseIndex "se/rd" "serde")
    (exampleAt "index.crates.io" "/se/rd/serde" (by decide) (by decide) (by decide)) rfl
    (unmarked_of_silent rfl) ⟨by decide, by decide⟩ ⟨rfl, rfl⟩
  have stored : exampleProxy.policy.response_storable
      (exampleAt "index.crates.io" "/se/rd/serde" (by decide) (by decide) (by decide)) 200 []
      4096 = .ok () := by decide
  rw [stored] at rejected
  cases rejected

end Cicache
