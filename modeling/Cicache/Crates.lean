/-
This file collects the third-party code the program calls and the records it passes to it: the
digest, the JSON serialiser, the URL parser and the table of reason phrases. None of it is part
of the repository, so it enters the model as a parameter.

`Lawful` states what the program relies on: no two byte strings share a digest, a header that was
serialised reads back as itself, and no proper beginning of a serialised header reads as one.
-/

import Cicache.Url
import Mathlib.Data.Countable.Basic
import Mathlib.Logic.Equiv.List

namespace Cicache

open Text

/-! ### The records that are serialised -/

/-- `entry::Header`: what an entry records beside the body. -/
structure Header where
  url : String
  status : UInt16
  headers : List (String × String)
  sha256 : String
  stored_at : Nat
  deriving DecidableEq

/-- `gha::CreateResponse`. -/
structure CreateResponse where
  ok : Bool
  signed_upload_url : String
  deriving DecidableEq

/-- `gha::FinalizeUploadResponse`. -/
structure FinalizeUploadResponse where
  ok : Bool
  deriving DecidableEq

/-- `gha::DownloadResponse`. -/
structure DownloadResponse where
  ok : Bool
  signed_download_url : String
  deriving DecidableEq

/-- `stats::Summary`, which is also what the counters of `Stats` hold. -/
structure Summary where
  requests : Nat
  hits : Nat
  misses : Nat
  stored : Nat
  passthrough : Nat
  errors : Nat
  bytes_from_cache : Nat
  bytes_from_network : Nat
  bytes_uploaded : Nat
  entries_stored : Nat
  packed : Nat
  packed_bytes : Nat
  uploads_failed : Nat
  upstream_millis : Nat
  deriving DecidableEq

/-! ### The code that is called -/

/-- The functions the program calls from other crates. -/
structure Crates where
  /-- `Sha256::digest`. -/
  sha256 : Bytes → Bytes
  /-- `serde_json::to_vec` of a header. -/
  to_vec : Header → Option Bytes
  /-- `serde_json::from_slice` of a header. -/
  from_slice : Bytes → Option Header
  /-- `serde_json::from_str` of the answers of the cache service. -/
  createResponse : String → Option CreateResponse
  finalizeUploadResponse : String → Option FinalizeUploadResponse
  downloadResponse : String → Option DownloadResponse
  /-- `Url::parse`. -/
  parseUrl : String → Except String Url
  /-- The names of `Url::query_pairs`, percent-decoded. -/
  queryNames : String → List String
  /-- `serde_json::to_string_pretty` of a summary. -/
  to_string_pretty : Summary → String
  /-- `StatusCode::canonical_reason`. -/
  canonical_reason : UInt16 → Option String

/-- What the program relies on of that code. -/
structure Crates.Lawful (crates : Crates) : Prop where
  sha256_injective : Function.Injective crates.sha256
  from_slice_to_vec : ∀ header raw, crates.to_vec header = some raw →
    crates.from_slice raw = some header
  from_slice_prefix : ∀ header raw, crates.to_vec header = some raw → ∀ front, front <+: raw →
    front ≠ raw → crates.from_slice front = none

/-! ### Code given by its values

Code that is known on a few inputs extends to code that keeps the laws on all of them: bytes
without a known digest get one longer than any known one, and headers without a known text get a
text in unary, which is no beginning of another. -/

/-- Values of the code on a few inputs. -/
structure Samples where
  digests : List (Bytes × Bytes)
  texts : List (Header × Bytes)
  creates : List (String × CreateResponse)
  finalizes : List (String × FinalizeUploadResponse)
  downloads : List (String × DownloadResponse)
  urls : List (String × Url)

/-- The reason phrases of the statuses that occur in the runs below. -/
def reasons : List (UInt16 × String) :=
  [(200, "OK"), (400, "Bad Request"), (404, "Not Found"), (409, "Conflict"),
    (429, "Too Many Requests"), (502, "Bad Gateway")]

/-- The first component listed with a second component. -/
def reverseLookup {First Second : Type} [DecidableEq Second] (second : Second)
    (pairs : List (First × Second)) : Option First :=
  (pairs.find? fun pair => pair.2 = second).map Prod.fst

/-- The samples do not contradict the laws: digests are of one length and differ, and the texts
start as JSON objects do and none begins another. -/
def Samples.Consistent (samples : Samples) : Prop :=
  (∀ pair ∈ samples.digests, pair.2.length = 32) ∧
  (∀ pair ∈ samples.digests, ∀ other ∈ samples.digests, pair.2 = other.2 → pair.1 = other.1) ∧
  (∀ pair ∈ samples.texts, pair.2.head? = some 0x7B) ∧
  (∀ pair ∈ samples.texts, ∀ other ∈ samples.texts, pair.2 <+: other.2 → pair = other)

instance (samples : Samples) : Decidable samples.Consistent :=
  inferInstanceAs (Decidable (_ ∧ _ ∧ _ ∧ _))

instance : Countable Header := by
  have chars : Countable Char := Function.Injective.countable (f := fun char : Char => char.toNat)
    fun _ _ same => Char.val_inj.mp (UInt32.toNat_inj.mp same)
  have strings : Countable String := Function.Injective.countable (f := String.toList)
    fun _ _ same => String.toList_inj.mp same
  refine Function.Injective.countable (f := fun header : Header =>
    (header.url, header.status.toNat, header.headers, header.sha256, header.stored_at)) ?_
  intro first second same
  simp only [Prod.mk.injEq] at same
  cases first
  cases second
  simp only [Header.mk.injEq]
  exact ⟨same.1, UInt16.toNat_inj.mp same.2.1, same.2.2⟩

/-- A number for each header. -/
noncomputable def Header.number : Header → Nat := Classical.choose (exists_injective_nat Header)

theorem Header.number_injective : Function.Injective Header.number :=
  Classical.choose_spec (exists_injective_nat Header)

/-- A number in unary, as zeros that a one ends. -/
def unary (number : Nat) : Bytes := List.replicate number 0 ++ [1]

theorem unary_of_prefix {first second : Nat} (rest : Bytes)
    (same : unary first ++ rest = unary second) : first = second := by
  induction first generalizing second with
  | zero =>
    cases second with
    | zero => rfl
    | succ second => exact absurd (List.cons.inj same).1 (by decide)
  | succ first inductionHypothesis =>
    cases second with
    | zero => exact absurd (List.cons.inj same).1 (by decide)
    | succ second => rw [inductionHypothesis (List.cons.inj same).2]

/-- A summary as an object of numbers, one field to a line. -/
def Summary.pretty (summary : Summary) : String :=
  let field (name : String) (value : Nat) : String := "  \"" ++ name ++ "\": " ++ Nat.repr value
  let fields := [field "requests" summary.requests, field "hits" summary.hits,
    field "misses" summary.misses, field "stored" summary.stored,
    field "passthrough" summary.passthrough, field "errors" summary.errors,
    field "bytes_from_cache" summary.bytes_from_cache,
    field "bytes_from_network" summary.bytes_from_network,
    field "bytes_uploaded" summary.bytes_uploaded,
    field "entries_stored" summary.entries_stored, field "packed" summary.packed,
    field "packed_bytes" summary.packed_bytes, field "uploads_failed" summary.uploads_failed,
    field "upstream_millis" summary.upstream_millis]
  "\x7b\n" ++ String.intercalate ",\n" fields ++ "\n\x7d"

open Classical in
/-- The code that has these values. -/
noncomputable def Crates.ofSamples (samples : Samples) : Crates where
  sha256 bytes := (samples.digests.lookup bytes).getD (bytes ++ List.replicate 33 0)
  to_vec header := some ((samples.texts.lookup header).getD (unary header.number))
  from_slice raw := (reverseLookup raw samples.texts).orElse fun _ =>
    if read : ∃ header : Header, samples.texts.lookup header = none ∧ unary header.number = raw then
      some (choose read)
    else none
  createResponse text := samples.creates.lookup text
  finalizeUploadResponse text := samples.finalizes.lookup text
  downloadResponse text := samples.downloads.lookup text
  parseUrl text :=
    match samples.urls.lookup text with
    | some url => .ok url
    | none => .error "relative URL without a base"
  queryNames _ := []
  to_string_pretty := Summary.pretty
  canonical_reason code := reasons.lookup code

theorem reverseLookup_some {First Second : Type} [DecidableEq Second] {second : Second}
    {pairs : List (First × Second)} {first : First}
    (found : reverseLookup second pairs = some first) : (first, second) ∈ pairs := by
  obtain ⟨pair, here, rfl⟩ := Option.map_eq_some_iff.mp found
  have matching := List.find?_some here
  rw [decide_eq_true_iff] at matching
  rw [← matching]
  exact List.mem_of_find?_eq_some here

theorem reverseLookup_isSome {First Second : Type} [DecidableEq Second]
    {pairs : List (First × Second)} {pair : First × Second} (member : pair ∈ pairs) :
    ∃ first, reverseLookup pair.2 pairs = some first := by
  have found : (pairs.find? fun other => decide (other.2 = pair.2)).isSome = true :=
    List.find?_isSome.mpr ⟨pair, member, decide_eq_true rfl⟩
  obtain ⟨first, found⟩ := Option.isSome_iff_exists.mp found
  exact ⟨first.1, by rw [reverseLookup, found]; rfl⟩

theorem lookup_mem {First Second : Type} [BEq First] [LawfulBEq First] {first : First}
    {second : Second} {pairs : List (First × Second)}
    (found : pairs.lookup first = some second) : (first, second) ∈ pairs := by
  obtain ⟨front, rest, rfl, _⟩ := List.lookup_eq_some_iff.mp found
  exact List.mem_append_right _ List.mem_cons_self

/-- Neither a unary number nor a beginning of one starts as a text does. -/
theorem head_unary (number : Nat) : (unary number).head? ≠ some 0x7B ∧ unary number ≠ [] := by
  cases number with
  | zero => decide
  | succ number => exact ⟨fun head => absurd (Option.some_inj.mp head) (by decide),
    List.cons_ne_nil _ _⟩

theorem head_of_begins {front raw : Bytes} (begins : front <+: raw) (nonempty : front ≠ []) :
    front.head? = raw.head? := by
  obtain ⟨rest, rfl⟩ := begins
  rw [List.head?_append_of_ne_nil _ nonempty]

/-- The code that consistent samples give keeps the laws. -/
theorem Samples.lawful {samples : Samples} (consistent : samples.Consistent) :
    (Crates.ofSamples samples).Lawful := by
  obtain ⟨wide, distinct, braces, separate⟩ := consistent
  have noText : ∀ number front, front <+: unary number →
      reverseLookup front samples.texts = none := by
    intro number front begins
    by_contra found
    obtain ⟨header, found⟩ := Option.ne_none_iff_exists'.mp found
    have head := braces _ (reverseLookup_some found)
    have nonempty : front ≠ [] := by
      rintro rfl
      cases head
    exact (head_unary number).1 (head_of_begins begins nonempty ▸ head)
  refine ⟨?_, ?_, ?_⟩
  · intro first second same
    change (samples.digests.lookup first).getD _ = (samples.digests.lookup second).getD _ at same
    cases firstFound : samples.digests.lookup first with
    | none =>
      cases secondFound : samples.digests.lookup second with
      | none =>
        rw [firstFound, secondFound] at same
        exact List.append_cancel_right same
      | some digest =>
        rw [firstFound, secondFound] at same
        have lengths := congrArg List.length same
        rw [Option.getD_none, Option.getD_some, List.length_append, List.length_replicate,
          wide _ (lookup_mem secondFound)] at lengths
        omega
    | some digest =>
      cases secondFound : samples.digests.lookup second with
      | none =>
        rw [firstFound, secondFound] at same
        have lengths := congrArg List.length same
        rw [Option.getD_none, Option.getD_some, List.length_append, List.length_replicate,
          wide _ (lookup_mem firstFound)] at lengths
        omega
      | some other =>
        rw [firstFound, secondFound] at same
        exact distinct _ (lookup_mem firstFound) _ (lookup_mem secondFound) same
  · intro header raw written
    change some ((samples.texts.lookup header).getD _) = some raw at written
    cases found : samples.texts.lookup header with
    | none =>
      rw [found, Option.getD_none, Option.some_inj] at written
      have read : ∃ other : Header, samples.texts.lookup other = none ∧ unary other.number = raw :=
        ⟨header, found, written⟩
      have chosen := Classical.choose_spec read
      change ((reverseLookup raw samples.texts).orElse _) = _
      rw [noText header.number raw (written ▸ List.prefix_rfl), Option.orElse_none, dif_pos read]
      have numbers : (Classical.choose read).number = header.number := by
        refine unary_of_prefix [] ?_
        rw [List.append_nil, chosen.2, written]
      exact congrArg some (Header.number_injective numbers)
    | some text =>
      rw [found, Option.getD_some, Option.some_inj] at written
      subst written
      have member := lookup_mem found
      obtain ⟨other, back⟩ := reverseLookup_isSome member
      have same := separate _ (reverseLookup_some back) _ member List.prefix_rfl
      change ((reverseLookup text samples.texts).orElse _) = _
      rw [back, (Prod.mk.inj same).1]
      rfl
  · intro header raw written front begins shorter
    change some ((samples.texts.lookup header).getD _) = some raw at written
    change ((reverseLookup front samples.texts).orElse _) = none
    cases found : samples.texts.lookup header with
    | none =>
      rw [found, Option.getD_none, Option.some_inj] at written
      subst written
      rw [noText header.number front begins, Option.orElse_none, dif_neg]
      rintro ⟨other, _, same⟩
      obtain ⟨rest, joined⟩ := begins
      rw [← same] at joined
      exact shorter (by rw [← same, unary_of_prefix rest joined])
    | some text =>
      rw [found, Option.getD_some, Option.some_inj] at written
      subst written
      have member := lookup_mem found
      have notText : reverseLookup front samples.texts = none := by
        by_contra back
        obtain ⟨other, back⟩ := Option.ne_none_iff_exists'.mp back
        exact shorter (Prod.mk.inj (separate _ (reverseLookup_some back) _ member begins)).2
      rw [notText, Option.orElse_none, dif_neg]
      rintro ⟨other, _, same⟩
      have head := braces _ member
      rw [← head_of_begins begins (same ▸ (head_unary _).2), ← same] at head
      exact (head_unary _).1 head

/-- A number for each value. -/
noncomputable def numbered {Data : Type} [Countable Data] : Data → Nat :=
  Classical.choose (exists_injective_nat Data)

/-- A number in unary, as text. -/
def zeros (number : Nat) : String := String.ofList (List.replicate (number + 1) '0')

/-- The known texts start as JSON objects do and differ. -/
def Distinct {Data : Type} (known : List (Data × String)) : Prop :=
  (∀ pair ∈ known, pair.2.toList.head? = some '\x7b') ∧
    ∀ pair ∈ known, ∀ other ∈ known, pair.2 = other.2 → pair = other

theorem reverseLookup_zeros {Data : Type} {known : List (Data × String)} (distinct : Distinct known)
    {text : String} (head : text.toList.head? ≠ some '\x7b') : reverseLookup text known = none := by
  by_contra found
  obtain ⟨data, found⟩ := Option.ne_none_iff_exists'.mp found
  exact head (distinct.1 _ (reverseLookup_some found))

theorem head_zeros (number : Nat) : (zeros number).toList.head? = some '0' := by
  rw [zeros, String.toList_ofList]
  rfl

section Texts

variable {Data : Type} [DecidableEq Data] [Countable Data]

/-- A serialiser with a few known texts. -/
noncomputable def printed (known : List (Data × String)) (data : Data) : String :=
  (known.lookup data).getD (zeros (numbered data))

open Classical in
/-- The parser of its texts. -/
noncomputable def parsed (known : List (Data × String)) (text : String) : Option Data :=
  (reverseLookup text known).orElse fun _ =>
    if read : ∃ data : Data, known.lookup data = none ∧ zeros (numbered data) = text then
      some (choose read)
    else none

theorem parsed_printed {known : List (Data × String)} (distinct : Distinct known) (data : Data) :
    parsed known (printed known data) = some data := by
  cases found : known.lookup data with
  | none =>
    have text : printed known data = zeros (numbered data) := by
      rw [printed, found, Option.getD_none]
    have read : ∃ other : Data, known.lookup other = none ∧
        zeros (numbered other) = printed known data := ⟨data, found, text.symm⟩
    have head : (printed known data).toList.head? ≠ some '\x7b' := by
      rw [text, head_zeros]
      decide
    rw [parsed, reverseLookup_zeros distinct head, Option.orElse_none, dif_pos read]
    have same := (Classical.choose_spec read).2.trans text
    have lengths := congrArg (fun zeros => zeros.toList.length) same
    simp only [zeros, String.toList_ofList, List.length_replicate, Nat.add_right_cancel_iff]
      at lengths
    exact congrArg some (Classical.choose_spec (exists_injective_nat Data) lengths)
  | some text =>
    have member := lookup_mem found
    obtain ⟨other, back⟩ := reverseLookup_isSome member
    have same := distinct.2 _ (reverseLookup_some back) _ member rfl
    rw [parsed, printed, found, Option.getD_some, back, (Prod.mk.inj same).1]
    rfl

theorem parsed_empty {known : List (Data × String)} (distinct : Distinct known) :
    parsed known "" = none := by
  have head : "".toList.head? ≠ some '\x7b' := by decide
  rw [parsed, reverseLookup_zeros distinct head, Option.orElse_none, dif_neg]
  rintro ⟨data, _, same⟩
  have heads := head_zeros (numbered data)
  rw [same] at heads
  cases heads

end Texts

/-- How the service tells where an object is to be put, that it holds it, and where it is. -/
def createdText (url : String) : String :=
  "\x7b\"ok\":true,\"signed_upload_url\":\"" ++ url ++ "\"\x7d"

def finalizedText : String := "\x7b\"ok\":true\x7d"

def locatedText (url : String) : String :=
  "\x7b\"ok\":true,\"signed_download_url\":\"" ++ url ++ "\"\x7d"

/-- The code of which nothing is known. -/
noncomputable def Crates.unknown : Crates := .ofSamples ⟨[], [], [], [], [], []⟩

end Cicache
