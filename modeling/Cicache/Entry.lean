/-
This file models `entry`, the wire format of one cached response: a magic number, a length, a JSON
header and the body. An entry carries the proof that its body has the digest its header records,
which is what `Entry::new` establishes and `decode` checks.

Two theorems say what reading an entry back is worth. Decoding what was encoded gives the entry
back whenever it gives anything; and no proper beginning of an encoded entry decodes, so a file
that is still being written is never mistaken for a complete one.
-/

import Cicache.Crates
import Cicache.Http

namespace Cicache

open Text

/-- A cached response. -/
structure Entry (crates : Crates) where
  header : Header
  body : Bytes
  verified : header.sha256 = hex (crates.sha256 body)

namespace Entry

variable {crates : Crates}

/-- The first bytes of every entry. -/
def MAGIC : Bytes := utf8 "CICH"

/-- Headers that describe the hop rather than the payload, and must not be replayed. -/
def HOP_BY_HOP : List String :=
  ["connection", "keep-alive", "proxy-authenticate", "proxy-authorization", "proxy-connection",
    "te", "trailer", "transfer-encoding", "upgrade"]

/-- The headers an entry records: those that are not hop-by-hop and whose value has a text. -/
def recorded (headers : HeaderMap) : List (String × String) :=
  (headers.filter fun entry => !HOP_BY_HOP.contains entry.1.text).filterMap fun entry =>
    entry.2.to_str.map fun text => (entry.1.text, text)

/-- `Entry::new`, at `stored_at` seconds after the epoch. -/
def new (crates : Crates) (url : String) (status : UInt16) (headers : HeaderMap) (body : Bytes)
    (stored_at : Nat) : Entry crates where
  header :=
    { url := url
      status := status
      headers := recorded headers
      sha256 := hex (crates.sha256 body)
      stored_at := stored_at }
  body := body
  verified := rfl

/-- `Entry::encode`. -/
def encode (entry : Entry crates) : Option Bytes :=
  (crates.to_vec entry.header).map fun header =>
    MAGIC ++ leBytes 4 header.length ++ header ++ entry.body

/-- `Entry::decode`: the header and the body, verified against the digest in the header. -/
def decode (crates : Crates) (raw : Bytes) : Except String (Entry crates) :=
  if raw.length < 8 ∨ raw.take 4 ≠ MAGIC then .error "not a cache entry"
  else
    let body_start := 8 + leNat ((raw.take 8).drop 4)
    if raw.length < body_start then .error "truncated cache entry"
    else
      match crates.from_slice ((raw.take body_start).drop 8) with
      | none => .error "malformed header"
      | some header =>
          let body := raw.drop body_start
          if verified : header.sha256 = hex (crates.sha256 body) then .ok ⟨header, body, verified⟩
          else .error "cache entry failed integrity check"

/-- Adds one recorded header, unless its name or its value does not parse. -/
def append_header (map : HeaderMap) (header : String × String) : HeaderMap :=
  match HeaderName.parse header.1, HeaderValue.from_str header.2 with
  | some name, some value => map.append name value
  | _, _ => map

/-- `Entry::header_map`. -/
def header_map (entry : Entry crates) : HeaderMap := entry.header.headers.foldl append_header []

/-! ### The headers of an entry -/

/-- Whether a header survives in an entry: it is not hop-by-hop and its value has a text. -/
def survives (header : HeaderName × HeaderValue) : Bool :=
  !HOP_BY_HOP.contains header.1.text && header.2.to_str.isSome

/-- A header whose value has a text is added as it was. -/
theorem append_header_text {header : HeaderName × HeaderValue} {text : String}
    (visible : header.2.to_str = some text) (map : HeaderMap) :
    append_header map (header.1.text, text) = map ++ [header] := by
  unfold append_header
  rw [HeaderName.parse_text, HeaderValue.from_str_to_str visible]
  rfl

theorem foldl_recorded (headers front : HeaderMap) :
    (recorded headers).foldl append_header front = front ++ headers.filter survives := by
  induction headers generalizing front with
  | nil => exact (List.append_nil front).symm
  | cons header rest inductionHypothesis =>
    unfold recorded at inductionHypothesis ⊢
    cases hop : HOP_BY_HOP.contains header.1.text with
    | true =>
      have dropped : survives header = false := by
        rw [survives, hop]
        rfl
      rw [List.filter_cons_of_neg (by simpa using hop), inductionHypothesis,
        List.filter_cons_of_neg (by rw [dropped]; decide)]
    | false =>
      rw [List.filter_cons_of_pos (by simpa using hop)]
      cases text : header.2.to_str with
      | none =>
        rw [List.filterMap_cons_none (by rw [text]; rfl), inductionHypothesis,
          List.filter_cons_of_neg (by simp [survives, text])]
      | some visible =>
        rw [List.filterMap_cons_some (by rw [text]; rfl), List.foldl_cons,
          append_header_text text, inductionHypothesis,
          List.filter_cons_of_pos (by rw [survives, hop, text]; rfl), List.append_assoc,
          List.singleton_append]

/-- The headers read back from an entry are those that survive. -/
theorem header_map_new (url : String) (status : UInt16) (headers : HeaderMap) (body : Bytes)
    (stored_at : Nat) :
    (new crates url status headers body stored_at).header_map = headers.filter survives :=
  foldl_recorded headers []

/-! ### Reading an entry back -/

theorem length_MAGIC : MAGIC.length = 4 := by decide

/-- What `decode` does with bytes that start as an entry does. -/
theorem decode_framed (crates : Crates) (length : Nat) (rest : Bytes) :
    decode crates (MAGIC ++ leBytes 4 length ++ rest) =
      if rest.length < length % 2 ^ 32 then .error "truncated cache entry"
      else
        match crates.from_slice (rest.take (length % 2 ^ 32)) with
        | none => .error "malformed header"
        | some header =>
            if verified : header.sha256 = hex (crates.sha256 (rest.drop (length % 2 ^ 32))) then
              .ok ⟨header, rest.drop (length % 2 ^ 32), verified⟩
            else .error "cache entry failed integrity check" := by
  have front : (MAGIC ++ leBytes 4 length).length = 8 := by
    rw [List.length_append, length_MAGIC, length_leBytes]
  have field : leNat (((MAGIC ++ leBytes 4 length ++ rest).take 8).drop 4) = length % 2 ^ 32 := by
    rw [List.take_left' front, List.drop_left' length_MAGIC, leNat_leBytes]
    rfl
  have wide : ¬ ((MAGIC ++ leBytes 4 length ++ rest).length < 8 ∨
      (MAGIC ++ leBytes 4 length ++ rest).take 4 ≠ MAGIC) := by
    rw [not_or, not_lt, not_not, List.length_append, front, List.append_assoc]
    exact ⟨Nat.le_add_right 8 _, List.take_left' length_MAGIC⟩
  have start : ∀ count, (MAGIC ++ leBytes 4 length ++ rest).drop (8 + count) = rest.drop count := by
    intro count
    rw [← List.drop_drop, List.drop_left' front]
  have middle : ∀ count, ((MAGIC ++ leBytes 4 length ++ rest).take (8 + count)).drop 8 =
      rest.take count := by
    intro count
    rw [List.drop_take, Nat.add_sub_cancel_left, List.drop_left' front]
  unfold decode
  rw [if_neg wide]
  have total : (MAGIC ++ leBytes 4 length ++ rest).length = 8 + rest.length := by
    rw [List.length_append, front]
  simp only [field, start, middle, total, Nat.add_lt_add_iff_left]

/-- An entry whose header fits the length field reads back as itself. -/
theorem decode_encode (lawful : crates.Lawful) (entry : Entry crates) {json : Bytes}
    (serialised : crates.to_vec entry.header = some json) (small : json.length < 2 ^ 32) :
    decode crates (MAGIC ++ leBytes 4 json.length ++ json ++ entry.body) = .ok entry := by
  rw [List.append_assoc (MAGIC ++ leBytes 4 json.length), decode_framed,
    Nat.mod_eq_of_lt small, if_neg (by rw [List.length_append]; omega), List.take_left,
    List.drop_left, lawful.from_slice_to_vec _ _ serialised]
  exact dif_pos entry.verified

/-- An entry whose header has a short text is written as that text and the body, and read back. -/
theorem stored_of_text (lawful : crates.Lawful) {entry : Entry crates} {json : Bytes}
    (serialised : crates.to_vec entry.header = some json) (small : json.length < 2 ^ 32) :
    entry.encode = some (MAGIC ++ leBytes 4 json.length ++ json ++ entry.body) ∧
      decode crates (MAGIC ++ leBytes 4 json.length ++ json ++ entry.body) = .ok entry := by
  refine ⟨?_, decode_encode lawful entry serialised small⟩
  rw [encode, serialised, Option.map_some]

/-- Only the whole of an encoded entry decodes, and it decodes to that entry. -/
theorem decode_of_prefix (lawful : crates.Lawful) {entry read : Entry crates} {raw front : Bytes}
    (encoded : entry.encode = some raw) (begins : front <+: raw)
    (decoded : decode crates front = .ok read) : read = entry ∧ front = raw := by
  obtain ⟨json, serialised, rfl⟩ := Option.map_eq_some_iff.mp encoded
  have frame : (MAGIC ++ leBytes 4 json.length).length = 8 := by
    rw [List.length_append, length_MAGIC, length_leBytes]
  have long : ¬ (front.length < 8 ∨ front.take 4 ≠ MAGIC) := by
    intro short
    rw [decode, if_pos short] at decoded
    cases decoded
  rw [not_or, not_lt] at long
  have framed : MAGIC ++ leBytes 4 json.length <+: front := by
    refine List.prefix_of_prefix_length_le ?_ begins (frame ▸ long.1)
    rw [List.append_assoc]
    exact List.prefix_append _ _
  obtain ⟨rest, rfl⟩ := framed
  rw [List.append_assoc (MAGIC ++ leBytes 4 json.length), List.prefix_append_right_inj] at begins
  rw [decode_framed] at decoded
  split at decoded
  · cases decoded
  · rename_i enough
    rw [not_lt] at enough
    have inJson : rest.take (json.length % 2 ^ 32) <+: json := by
      refine List.prefix_of_prefix_length_le ((List.take_prefix _ _).trans begins)
        (List.prefix_append _ _) ?_
      rw [List.length_take]
      exact (Nat.min_le_left _ _).trans (Nat.mod_le _ _)
    split at decoded
    · cases decoded
    · rename_i header parsed
      -- A header that was cut short does not parse, so the length field is the whole length.
      have whole : rest.take (json.length % 2 ^ 32) = json := by
        by_contra short
        rw [lawful.from_slice_prefix _ _ serialised _ inJson short] at parsed
        cases parsed
      have fits : json.length % 2 ^ 32 = json.length := by
        have lengths := congrArg List.length whole
        rw [List.length_take] at lengths
        omega
      rw [whole] at parsed
      rw [fits] at decoded whole
      split at decoded
      · rename_i verified
        rw [lawful.from_slice_to_vec _ _ serialised] at parsed
        obtain rfl := Option.some_inj.mp parsed
        have bodies : entry.body = rest.drop json.length :=
          lawful.sha256_injective (hex_injective (entry.verified.symm.trans verified))
        have rejoined : rest = json ++ entry.body := by
          rw [bodies]
          conv_lhs => rw [← List.take_append_drop json.length rest, whole]
        cases decoded
        refine ⟨?_, by rw [rejoined, List.append_assoc (MAGIC ++ leBytes 4 json.length)]⟩
        cases entry
        simp only [Entry.mk.injEq, true_and]
        exact bodies.symm
      · cases decoded

end Entry

end Cicache
