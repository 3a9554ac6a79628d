/-
This file models the part of `ca` that builds the bundle of trusted certificates, and settles
whether a bundle ever goes without the real roots. The certificates of the platform's store are
written out one by one, and a store without any is made up for by the first bundle file that can be
read. Whether that gave any roots is judged by whether it gave any text; so a file without
certificates passes, and an empty one does too, since its missing line feed is supplied.
-/

import Cicache.Lib.Text
import Mathlib.Data.List.GetD

namespace Cicache

open Text

/-! ### The program -/

/-- Trust bundles shipped by the Linux distributions used for CI runners. -/
def SYSTEM_BUNDLES : List String :=
  ["/etc/ssl/certs/ca-certificates.crt", "/etc/pki/tls/certs/ca-bundle.crt",
    "/etc/ssl/ca-bundle.pem"]

/-- A certificate in DER, which always has content. -/
structure CertificateDer where
  bytes : Bytes
  nonempty : bytes ≠ []

/-- What reading the platform's store gave: its certificates, and how many errors there were. -/
structure NativeCerts where
  certs : List CertificateDer
  errors : Nat

/-- `slice::chunks`, on a slice of at most `fuel` elements. -/
def chunks (width : Nat) : Nat → List Char → List (List Char)
  | 0, _ => []
  | _, [] => []
  | fuel + 1, chars => chars.take width :: chunks width fuel (chars.drop width)

def BEGIN : String := "-----BEGIN CERTIFICATE-----"

def END : String := "-----END CERTIFICATE-----"

section Bundle

variable (encode : Bytes → String)

/-- DER certificate as a PEM block. -/
def pem_encode (cert : CertificateDer) : String :=
  let encoded := (encode cert.bytes).toList
  (chunks 64 encoded.length encoded).foldl (fun out chunk => out ++ String.ofList chunk ++ "\n")
    (BEGIN ++ "\n") ++ (END ++ "\n")

/-- The text with a line feed at its end. -/
def terminated (contents : String) : String :=
  if contents.toList.getLast? = some '\n' then contents else contents ++ "\n"

/-- The bundle before the generated CA is added. -/
def system_roots (native : NativeCerts) (read_to_string : String → Option String) : String :=
  let bundle := native.certs.foldl (fun bundle cert => bundle ++ pem_encode encode cert) ""
  if bundle.isEmpty then
    match SYSTEM_BUNDLES.findSome? read_to_string with
    | some contents => terminated contents
    | none => bundle
  else bundle

/-- Concatenation of the real roots and the generated CA. -/
def trust_bundle (native : NativeCerts) (read_to_string : String → Option String)
    (ca_pem : String) : Except String String :=
  let bundle := system_roots encode native read_to_string
  if bundle.isEmpty then
    .error ("no system trust roots found (" ++ Nat.repr native.errors ++
      " error(s) reading the platform store); refusing to emit a bundle containing only the " ++
      "generated CA")
  else .ok (bundle ++ ca_pem)

end Bundle

/-! ### Certificates in a text -/

def isBase64 (char : Char) : Bool :=
  ('A' ≤ char && char ≤ 'Z') || ('a' ≤ char && char ≤ 'z') || ('0' ≤ char && char ≤ '9') ||
    char = '+' || char = '/' || char = '='

/-- The lines of a certificate: some content between the two boundaries. -/
def IsBlock (block : List String) : Prop :=
  ∃ body, block = BEGIN :: (body ++ [END]) ∧ body ≠ [] ∧
    ∀ line ∈ body, line ≠ "" ∧ line.toList.all isBase64 = true

/-- A certificate stands in the text. -/
def HasCertificate (text : String) : Prop := ∃ block, IsBlock block ∧ block <:+: lines text

/-- What the program relies on of the encoder: it writes the alphabet of Base64, and it writes
something for content. -/
structure EncodesBase64 (encode : Bytes → String) : Prop where
  alphabet : ∀ bytes, (encode bytes).toList.all isBase64 = true
  nonempty : ∀ bytes, bytes ≠ [] → encode bytes ≠ ""

/-- Either no bundle is made, or one with a certificate beside the generated CA. -/
def TrustsRoots (encode : Bytes → String) (native : NativeCerts)
    (read_to_string : String → Option String) (ca_pem : String) : Prop :=
  (∃ message, trust_bundle encode native read_to_string ca_pem = .error message) ∨
    ∃ roots, trust_bundle encode native read_to_string ca_pem = .ok (roots ++ ca_pem) ∧
      HasCertificate roots

/-! ### The lines of an encoded certificate -/

/-- A chunk has content and is made of the characters that were cut. -/
theorem mem_chunks {width fuel : Nat} (wide : 0 < width) {chars chunk : List Char}
    (member : chunk ∈ chunks width fuel chars) :
    chunk ≠ [] ∧ ∀ char ∈ chunk, char ∈ chars := by
  induction fuel generalizing chars with
  | zero => cases member
  | succ fuel inductionHypothesis =>
    cases chars with
    | nil => cases member
    | cons first rest =>
      rw [chunks] at member
      · rcases List.mem_cons.mp member with rfl | later
        · refine ⟨?_, fun char inside => List.mem_of_mem_take inside⟩
          rw [Ne, List.take_eq_nil_iff, not_or]
          exact ⟨Nat.ne_of_gt wide, List.cons_ne_nil _ _⟩
        · obtain ⟨nonempty, inside⟩ := inductionHypothesis later
          exact ⟨nonempty, fun char found => List.mem_of_mem_drop (inside char found)⟩
      · exact nofun

theorem chunks_ne_nil (width : Nat) {chars : List Char} (nonempty : chars ≠ []) :
    chunks width chars.length chars ≠ [] := by
  cases chars with
  | nil => exact absurd rfl nonempty
  | cons first rest => exact List.cons_ne_nil _ _

section Encoded

variable {encode : Bytes → String}

/-- The lines of an encoded certificate. -/
def certificateLines (encode : Bytes → String) (cert : CertificateDer) : List (List Char) :=
  let encoded := (encode cert.bytes).toList
  BEGIN.toList :: (chunks 64 encoded.length encoded ++ [END.toList])

theorem toList_pem_encode (cert : CertificateDer) :
    (pem_encode encode cert).toList =
      ended (certificateLines encode cert) := by
  have fold : ∀ (parts : List (List Char)) (out : String),
      (parts.foldl (fun out chunk => out ++ String.ofList chunk ++ "\n") out).toList =
        out.toList ++ ended parts := by
    intro parts
    induction parts with
    | nil => exact fun out => (List.append_nil _).symm
    | cons part others inductionHypothesis =>
      intro out
      rw [List.foldl_cons, inductionHypothesis, String.toList_append, String.toList_append,
        String.toList_ofList, ended_cons, List.append_assoc, List.append_assoc]
      rfl
  have append : ∀ front back : List (List Char),
      ended (front ++ back) = ended front ++ ended back :=
    fun _ _ => List.flatMap_append
  unfold pem_encode certificateLines
  rw [String.toList_append, fold, ended_cons, append, String.toList_append, String.toList_append,
    List.append_assoc]
  rfl

theorem isLine_of_isBase64 {line : List Char} (alphabet : ∀ char ∈ line, isBase64 char = true) :
    '\n' ∉ line ∧ dropReturn line = line := by
  refine ⟨fun feed => absurd (alphabet _ feed) (by decide), if_neg fun last => ?_⟩
  exact absurd (alphabet _ (List.mem_of_getLast? last)) (by decide)

/-- A text that begins with an encoded certificate has one. -/
theorem hasCertificate_pem_encode (encodes : EncodesBase64 encode) (cert : CertificateDer)
    (rest : String) : HasCertificate (pem_encode encode cert ++ rest) := by
  have inside : ∀ chunk ∈ chunks 64 (encode cert.bytes).toList.length (encode cert.bytes).toList,
      chunk ≠ [] ∧ ∀ char ∈ chunk, isBase64 char = true := fun chunk member =>
    (mem_chunks (by decide) member).imp id fun found char here =>
      List.all_eq_true.mp (encodes.alphabet cert.bytes) char (found char here)
  have areLines : ∀ line ∈ certificateLines encode cert,
      '\n' ∉ line ∧ dropReturn line = line := by
    intro line member
    rcases List.mem_cons.mp member with rfl | later
    · decide
    · rcases List.mem_append.mp later with chunk | last
      · exact isLine_of_isBase64 (inside line chunk).2
      · rw [List.mem_singleton.mp last]
        decide
  have read : lines (pem_encode encode cert ++ rest) =
      (certificateLines encode cert).map String.ofList ++ lines rest := by
    have kept : (certificateLines encode cert).map dropReturn = certificateLines encode cert :=
      (List.map_congr_left fun line member => (areLines line member).2).trans (List.map_id _)
    rw [lines, String.toList_append, toList_pem_encode,
      linesFrom_ended fun line member => (areLines line member).1, kept, List.map_append]
    rfl
  refine ⟨(certificateLines encode cert).map String.ofList, ?_, [], lines rest, read.symm⟩
  refine ⟨(chunks 64 (encode cert.bytes).toList.length (encode cert.bytes).toList).map
    String.ofList, ?_, ?_, ?_⟩
  · rw [certificateLines, List.map_cons, List.map_append]
    rfl
  · rw [Ne, List.map_eq_nil_iff]
    refine chunks_ne_nil 64 fun empty => encodes.nonempty _ cert.nonempty ?_
    exact String.toList_inj.mp empty
  · intro line member
    obtain ⟨chunk, found, rfl⟩ := List.mem_map.mp member
    obtain ⟨nonempty, alphabet⟩ := inside chunk found
    rw [String.toList_ofList]
    refine ⟨fun empty => nonempty ?_, List.all_eq_true.mpr alphabet⟩
    rw [← String.toList_ofList (l := chunk), empty]
    rfl

/-! ### When the bundle has the real roots -/

/-- The certificates of the store begin with the first one. -/
theorem foldl_pem_encode (certs : List CertificateDer) (front : String) :
    ∃ rest, certs.foldl (fun bundle cert => bundle ++ pem_encode encode cert) front =
      front ++ rest := by
  induction certs generalizing front with
  | nil => exact ⟨"", (String.append_empty).symm⟩
  | cons cert others inductionHypothesis =>
    obtain ⟨rest, same⟩ := inductionHypothesis (front ++ pem_encode encode cert)
    exact ⟨pem_encode encode cert ++ rest, by rw [List.foldl_cons, same, String.append_assoc]⟩

theorem trust_bundle_of_roots {native : NativeCerts} {read_to_string : String → Option String}
    {roots : String} (given : system_roots encode native read_to_string = roots)
    (nonempty : roots.isEmpty = false) (ca_pem : String) :
    trust_bundle encode native read_to_string ca_pem = .ok (roots ++ ca_pem) := by
  unfold trust_bundle
  simp only [given, nonempty]
  rfl

theorem terminated_nonempty (contents : String) : (terminated contents).isEmpty = false := by
  rw [← Bool.not_eq_true, String.isEmpty_iff]
  unfold terminated
  intro empty
  split at empty
  · rename_i ends
    rw [empty] at ends
    cases ends
  · have letters := congrArg String.toList empty
    rw [String.toList_append] at letters
    exact List.append_ne_nil_of_right_ne_nil _ (List.cons_ne_nil _ _) letters

/-- A bundle is made of the real roots, or not at all, exactly when the platform's store has a
certificate or the first bundle file that can be read, if there is one, has one. -/
theorem trustsRoots_iff (encodes : EncodesBase64 encode) (native : NativeCerts)
    (read_to_string : String → Option String) (ca_pem : String) :
    TrustsRoots encode native read_to_string ca_pem ↔
      (native.certs = [] → ∀ contents, SYSTEM_BUNDLES.findSome? read_to_string = some contents →
        HasCertificate (terminated contents)) := by
  obtain ⟨certs, errors⟩ := native
  cases certs with
  | cons cert others =>
    obtain ⟨rest, stored⟩ : ∃ rest, (cert :: others).foldl
        (fun bundle cert => bundle ++ pem_encode encode cert) "" =
          pem_encode encode cert ++ rest := by
      obtain ⟨rest, same⟩ := foldl_pem_encode others ("" ++ pem_encode encode cert)
      exact ⟨rest, by rw [List.foldl_cons, same, String.empty_append]⟩
    have nonempty : (pem_encode encode cert ++ rest).isEmpty = false := by
      rw [← Bool.not_eq_true, String.isEmpty_iff]
      intro empty
      have letters := congrArg String.toList empty
      rw [String.toList_append, toList_pem_encode] at letters
      cases letters
    have roots : system_roots encode ⟨cert :: others, errors⟩ read_to_string =
        pem_encode encode cert ++ rest := by
      unfold system_roots
      simp only [stored, nonempty]
      rfl
    refine iff_of_true (Or.inr ⟨_, trust_bundle_of_roots roots nonempty ca_pem, ?_⟩) nofun
    exact hasCertificate_pem_encode encodes cert rest
  | nil =>
    have roots : system_roots encode ⟨[], errors⟩ read_to_string =
        match SYSTEM_BUNDLES.findSome? read_to_string with
        | some contents => terminated contents
        | none => "" := rfl
    cases found : SYSTEM_BUNDLES.findSome? read_to_string with
    | none =>
      refine iff_of_true (Or.inl ?_) fun _ _ same => nomatch same
      rw [found] at roots
      unfold trust_bundle
      rw [roots]
      exact ⟨_, rfl⟩
    | some contents =>
      rw [found] at roots
      have made := trust_bundle_of_roots roots (terminated_nonempty contents) ca_pem
      constructor
      · rintro trusts _ other ⟨⟩
        rcases trusts with ⟨message, failed⟩ | ⟨real, same, certified⟩
        · rw [made] at failed
          cases failed
        · rw [made, Except.ok.injEq, String.append_left_inj] at same
          subst same
          exact certified
      · intro certified
        exact Or.inr ⟨terminated contents, made, certified rfl contents rfl⟩

end Encoded

/-! ### Two stores without certificates -/

/-- The digit of Base64 for six bits. -/
def base64Digit (value : Nat) : Char :=
  "ABCDEFGHIJKLMNOPQRSTUVWXYZabcdefghijklmnopqrstuvwxyz0123456789+/".toList.getD value '='

/-- Base64 with padding: four digits for three bytes. -/
def base64 : Bytes → List Char
  | [] => []
  | [first] => [base64Digit (first.toNat / 4), base64Digit (first.toNat % 4 * 16), '=', '=']
  | [first, second] =>
      [base64Digit (first.toNat / 4), base64Digit (first.toNat % 4 * 16 + second.toNat / 16),
        base64Digit (second.toNat % 16 * 4), '=']
  | first :: second :: third :: rest =>
      base64Digit (first.toNat / 4) :: base64Digit (first.toNat % 4 * 16 + second.toNat / 16) ::
        base64Digit (second.toNat % 16 * 4 + third.toNat / 64) :: base64Digit (third.toNat % 64) ::
        base64 rest

example : base64 (utf8 "Many") = "TWFueQ==".toList := by decide

theorem encodesBase64 : EncodesBase64 fun bytes => String.ofList (base64 bytes) := by
  have digit : ∀ value, isBase64 (base64Digit value) = true := by
    intro value
    by_cases small : value < 64
    · have table : ∀ value < 64, isBase64 (base64Digit value) = true := by decide +kernel
      exact table value small
    · unfold base64Digit
      rw [List.getD_eq_default _ _ (Nat.not_lt.mp small)]
      decide
  refine ⟨fun bytes => ?_, fun bytes nonempty => ?_⟩
  · rw [String.toList_ofList]
    fun_induction base64 bytes with
    | case1 => rfl
    | case2 first => simp only [List.all_cons, digit, List.all_nil]; decide
    | case3 first second => simp only [List.all_cons, digit, List.all_nil]; decide
    | case4 first second third rest inductionHypothesis =>
      simp only [List.all_cons, digit, inductionHypothesis, Bool.and_true]
  · intro empty
    have letters := congrArg String.toList empty
    rw [String.toList_ofList] at letters
    rcases bytes with _ | ⟨first, _ | ⟨second, _ | ⟨third, rest⟩⟩⟩
    · exact nonempty rfl
    · cases letters
    · cases letters
    · rw [base64] at letters
      cases letters

/-- Files of which one can be read. -/
def onlyFile (path contents : String) (asked : String) : Option String :=
  if asked = path then some contents else none

def rootPem : String := BEGIN ++ "\nAAAA\n" ++ END ++ "\n"

/-- A store that cannot be read, and a bundle file with one certificate. -/
theorem trustsRoots_rootPem :
    TrustsRoots (fun bytes => String.ofList (base64 bytes)) ⟨[], 1⟩
      (onlyFile "/etc/ssl/ca-bundle.pem" rootPem) "ca" :=
  (trustsRoots_iff encodesBase64 _ _ _).mpr fun _ contents found => by
    obtain rfl : rootPem = contents := by
      have read : SYSTEM_BUNDLES.findSome? (onlyFile "/etc/ssl/ca-bundle.pem" rootPem) =
          some rootPem := by decide
      exact Option.some_inj.mp (read.symm.trans found)
    refine ⟨[BEGIN, "AAAA", END], ⟨["AAAA"], rfl, by decide, by decide⟩, [], [], ?_⟩
    decide

/-- A bundle file that is empty makes a bundle of the generated CA alone. -/
theorem emptyFile_trusted :
    ¬ ∀ (encode : Bytes → String), EncodesBase64 encode → ∀ (native : NativeCerts)
      (read_to_string : String → Option String) (ca_pem : String),
      TrustsRoots encode native read_to_string ca_pem := by
  intro always
  have made : trust_bundle (fun bytes => String.ofList (base64 bytes)) ⟨[], 0⟩
      (onlyFile "/etc/ssl/certs/ca-certificates.crt" "") rootPem =
        .ok ("\n" ++ rootPem) := by decide
  rcases always _ encodesBase64 ⟨[], 0⟩ (onlyFile "/etc/ssl/certs/ca-certificates.crt" "")
    rootPem with ⟨message, failed⟩ | ⟨roots, same, block, ⟨body, rfl, _, _⟩, inside⟩
  · rw [made] at failed
    cases failed
  · rw [made, Except.ok.injEq, String.append_left_inj] at same
    subst same
    have short := inside.length_le
    have one : (lines "\n").length = 1 := by decide
    rw [one, List.length_cons, List.length_append] at short
    exact absurd short (by simp)

end Cicache
