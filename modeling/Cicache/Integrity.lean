/-
This file settles what reading an entry back is worth on any bytes at all. A local file may be read
while it is being written, or be damaged, so `decode` meets bytes nobody wrote. It gives an entry
back when it gets all of one, it refuses every proper beginning of one and every other body behind
the header of one, and its slices never run out of range, whatever the length field says.
-/

import Cicache.Pack
import Cicache.Replay

namespace Cicache

open Text

/-- A result as the way a call ends. -/
def Return.ofExcept {Value : Type} : Except String Value → Return Value
  | .ok value => .ok value
  | .error message => .err message

namespace Entry

variable {crates : Crates}

/-- `Entry::decode` with the additions and the slices as the program performs them. -/
def decode_sliced (build : Build) (crates : Crates) (raw : Bytes) : Return (Entry crates) := do
  if raw.length < 8 then .err "not a cache entry"
  else if (← slice raw 0 4) ≠ MAGIC then .err "not a cache entry"
  else
    let header_len := leNat (← slice raw 4 8)
    let body_start ← usizeAdd build 8 header_len
    if raw.length < body_start then .err "truncated cache entry"
    else
      match crates.from_slice (← slice raw 8 body_start) with
      | none => .err "malformed header"
      | some header =>
        let body ← slice raw body_start raw.length
        if verified : header.sha256 = hex (crates.sha256 body) then .ok ⟨header, body, verified⟩
        else .err "cache entry failed integrity check"

/-- No slice of it is out of range and no addition wraps. -/
theorem decode_sliced_eq (build : Build) (crates : Crates) (raw : Bytes) :
    decode_sliced build crates raw = .ofExcept (decode crates raw) := by
  unfold decode_sliced decode
  by_cases short : raw.length < 8
  · rw [if_pos short, if_pos (Or.inl short)]
    rfl
  · rw [if_neg short]
    rw [not_lt] at short
    rw [slice_of_le (Nat.zero_le 4) (le_trans (by decide) short), Return.ok_bind, List.drop_zero]
    by_cases other : raw.take 4 ≠ MAGIC
    · rw [if_pos other, if_pos (Or.inr other)]
      rfl
    · rw [if_neg other, if_neg (not_or.mpr ⟨not_lt.mpr short, other⟩),
        slice_of_le (by decide) short, Return.ok_bind]
      have field : leNat ((raw.take 8).drop 4) < 2 ^ 32 := by
        have bound := leNat_lt ((raw.take 8).drop 4)
        rwa [List.length_drop, List.length_take, Nat.min_eq_left short] at bound
      have fits : 8 + leNat ((raw.take 8).drop 4) < 2 ^ 64 := by omega
      simp only [usizeAdd_of_lt build fits, Return.ok_bind]
      by_cases truncated : raw.length < 8 + leNat ((raw.take 8).drop 4)
      · simp only [if_pos truncated]
        rfl
      · simp only [if_neg truncated]
        rw [not_lt] at truncated
        rw [slice_of_le (Nat.le_add_right 8 _) truncated, Return.ok_bind]
        cases crates.from_slice ((raw.take (8 + leNat ((raw.take 8).drop 4))).drop 8) with
        | none => rfl
        | some header =>
          simp only [slice_of_le truncated le_rfl, Return.ok_bind, List.take_length]
          split
          · rfl
          · rfl

/-- A header and what its length field makes of the bytes behind it. -/
theorem decode_behind_header (reads : ∀ header raw, crates.to_vec header = some raw →
    crates.from_slice raw = some header) {header : Header} {json : Bytes}
    (serialised : crates.to_vec header = some json) (small : json.length < 2 ^ 32) (body : Bytes) :
    decode crates (MAGIC ++ leBytes 4 json.length ++ json ++ body) =
      if verified : header.sha256 = hex (crates.sha256 body) then .ok ⟨header, body, verified⟩
      else .error "cache entry failed integrity check" := by
  rw [List.append_assoc (MAGIC ++ leBytes 4 json.length), decode_framed, Nat.mod_eq_of_lt small,
    if_neg (by rw [List.length_append]; exact not_lt.mpr (Nat.le_add_right _ _)), List.take_left,
    reads _ _ serialised]
  simp only [List.drop_left]

/-- Bytes that start as an entry with a header of this length and end inside the header. -/
theorem decode_inside_header {json rest : Bytes} (small : json.length < 2 ^ 32)
    (short : rest.length < json.length) :
    decode crates (MAGIC ++ leBytes 4 json.length ++ rest) = .error "truncated cache entry" := by
  rw [decode_framed, Nat.mod_eq_of_lt small, if_pos short]

section

variable (injective : Function.Injective crates.sha256)
  (reads : ∀ header raw, crates.to_vec header = some raw → crates.from_slice raw = some header)
  {entry : Entry crates} {json : Bytes} (serialised : crates.to_vec entry.header = some json)
  (small : json.length < 2 ^ 32)

include injective reads serialised small

/-- Behind the header of an entry, any other body is refused. -/
theorem decode_other_body {body : Bytes} (other : body ≠ entry.body) :
    ∃ message, decode crates (MAGIC ++ leBytes 4 json.length ++ json ++ body) = .error message := by
  rw [decode_behind_header reads serialised small, dif_neg]
  · exact ⟨_, rfl⟩
  · intro verified
    exact other (injective (hex_injective (verified.symm.trans entry.verified)))

/-- A proper beginning of an encoded entry is refused. -/
theorem decode_part {part : Bytes}
    (begins : part <+: MAGIC ++ leBytes 4 json.length ++ json ++ entry.body)
    (proper : part ≠ MAGIC ++ leBytes 4 json.length ++ json ++ entry.body) :
    ∃ message, decode crates part = .error message := by
  have frame : (MAGIC ++ leBytes 4 json.length).length = 8 := by
    rw [List.length_append, length_MAGIC, length_leBytes]
  by_cases short : part.length < 8
  · exact ⟨_, if_pos (Or.inl short)⟩
  have framed : MAGIC ++ leBytes 4 json.length <+: part := by
    refine List.prefix_of_prefix_length_le ?_ begins (frame ▸ not_lt.mp short)
    rw [List.append_assoc]
    exact List.prefix_append _ _
  obtain ⟨rest, rfl⟩ := framed
  rw [List.append_assoc (MAGIC ++ leBytes 4 json.length) json] at begins proper
  rw [List.prefix_append_right_inj] at begins
  by_cases inside : rest.length < json.length
  · exact ⟨_, decode_inside_header small inside⟩
  · have header : json <+: rest :=
      List.prefix_of_prefix_length_le (List.prefix_append _ _) begins (not_lt.mp inside)
    obtain ⟨body, rfl⟩ := header
    rw [← List.append_assoc]
    refine decode_other_body injective reads serialised small ?_
    rintro rfl
    exact proper rfl

end

/-- What is accepted has the shape of an entry, and the body its header has the digest of. -/
theorem decode_ok {raw : Bytes} {read : Entry crates} (decoded : decode crates raw = .ok read) :
    ∃ front, raw = front ++ read.body ∧ 8 ≤ front.length ∧
      crates.from_slice (front.drop 8) = some read.header := by
  unfold decode at decoded
  split at decoded
  · cases decoded
  dsimp only at decoded
  split at decoded
  · cases decoded
  rename_i _ enough
  split at decoded
  · cases decoded
  rename_i header parsed
  split at decoded
  · cases decoded
    refine ⟨raw.take (8 + leNat ((raw.take 8).drop 4)), (List.take_append_drop _ _).symm,
      ?_, parsed⟩
    rw [List.length_take, Nat.min_eq_left (not_lt.mp enough)]
    exact Nat.le_add_right 8 _
  · cases decoded

/-- An entry reads back as itself, none of its proper beginnings and nothing with another body
behind its header reads as anything; and on any bytes, `decode` runs to its end and accepts only a
body that has the digest in the header. -/
theorem decode_sound (crates : Crates) (injective : Function.Injective crates.sha256)
    (reads : ∀ header raw, crates.to_vec header = some raw → crates.from_slice raw = some header)
    (build : Build) :
    (∀ (entry : Entry crates) (front : Bytes), entry.encode = some (front ++ entry.body) →
      front.length < 8 + 2 ^ 32 →
        decode_sliced build crates (front ++ entry.body) = .ok entry ∧
        (∀ part, part <+: front ++ entry.body → part ≠ front ++ entry.body →
          ∃ message, decode_sliced build crates part = .err message) ∧
        ∀ body, body ≠ entry.body →
          ∃ message, decode_sliced build crates (front ++ body) = .err message) ∧
    ∀ raw, decode_sliced build crates raw ≠ .panicked ∧
      ∀ read : Entry crates, decode_sliced build crates raw = .ok read →
        (∃ front, raw = front ++ read.body ∧ 8 ≤ front.length ∧
          crates.from_slice (front.drop 8) = some read.header) ∧
        read.header.sha256 = hex (crates.sha256 read.body) := by
  simp only [decode_sliced_eq]
  constructor
  · intro entry front encoded fits
    obtain ⟨json, serialised, joined⟩ := Option.map_eq_some_iff.mp encoded
    obtain rfl := List.append_cancel_right joined
    have small : json.length < 2 ^ 32 := by
      rw [List.length_append, List.length_append, length_MAGIC, length_leBytes] at fits
      exact Nat.lt_of_add_lt_add_left fits
    refine ⟨?_, fun part begins proper => ?_, fun body other => ?_⟩
    · rw [decode_behind_header reads serialised small, dif_pos entry.verified]
      rfl
    · obtain ⟨message, refused⟩ := decode_part injective reads serialised small begins proper
      exact ⟨message, by rw [refused]; rfl⟩
    · obtain ⟨message, refused⟩ := decode_other_body injective reads serialised small other
      exact ⟨message, by rw [refused]; rfl⟩
  · intro raw
    cases decoded : decode crates raw with
    | error message => exact ⟨nofun, nofun⟩
    | ok entry =>
      refine ⟨nofun, fun read same => ?_⟩
      obtain rfl := Return.ok.inj same
      exact ⟨decode_ok decoded, entry.verified⟩

/-- The entry of the example, cut short by its one byte. -/
theorem decode_sound_example :
    ∃ message, decode_sliced .release exampleCrates
      (MAGIC ++ leBytes 4 exampleJson.length ++ exampleJson) = .err message := by
  have stored := (@example_stored [] rfl).1
  have cut := ((decode_sound exampleCrates exampleCrates_lawful.sha256_injective
    exampleCrates_lawful.from_slice_to_vec .release).1 _ _ stored (by decide +kernel)).2.2 []
    (by decide +kernel)
  rwa [List.append_nil] at cut

end Entry

end Cicache
